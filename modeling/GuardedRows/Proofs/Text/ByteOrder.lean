import GuardedRows.Bytes
import GuardedRows.Text

/-!
# The order of UTF-8 bytes

Texts are ordered as their UTF-8 bytes are. Of two characters the one with the smaller code
has the smaller byte where their encodings first differ, and they do differ before either
ends.
-/

set_option autoImplicit false

namespace GuardedRows

namespace Bytes

theorem ofText_eq_flatMap (text : String) :
    ofText text = text.toList.flatMap String.utf8EncodeChar := by
  have bytes : text.toByteArray = (text.toList.flatMap String.utf8EncodeChar).toByteArray := by
    conv => lhs; rw [← String.ofList_toList (s := text)]
    rfl
  rw [ofText, bytes]
  simp

private theorem ofNat_cons_lt_iff {lower upper : Nat} (small : lower < 256) (fits : upper < 256)
    {left right : Bytes} :
    UInt8.ofNat lower :: left < UInt8.ofNat upper :: right ↔
      lower < upper ∨ lower = upper ∧ left < right := by
  rw [List.cons_lt_cons_iff, UInt8.lt_iff_toNat_lt, ← UInt8.toNat_inj,
    UInt8.toNat_ofNat_of_lt' small, UInt8.toNat_ofNat_of_lt' fits]

/-! ## The parts of an encoded character -/

/-- The bytes that follow the first one: six bits each, the highest first. -/
private def trail : Nat → Nat → Bytes
  | 0, _ => []
  | count + 1, code => UInt8.ofNat (code / Nat.pow 64 count % 64 + 128) :: trail count code

private def trailing (code : Nat) : Nat :=
  if code ≤ 0x7f then 0 else if code ≤ 0x7ff then 1 else if code ≤ 0xffff then 2 else 3

private def mark : Nat → Nat
  | 0 => 0
  | 1 => 0xc0
  | 2 => 0xe0
  | _ => 0xf0

/-- The first byte holds the highest bits, and a mark that tells how many bytes follow. -/
private def lead (code : Nat) : Nat := code / Nat.pow 64 (trailing code) + mark (trailing code)

private theorem trailing_cases (code : Nat) :
    code ≤ 0x7f ∧ trailing code = 0 ∧ lead code = code ∨
      0x7f < code ∧ code ≤ 0x7ff ∧ trailing code = 1 ∧ lead code = code / 64 + 0xc0 ∨
      0x7ff < code ∧ code ≤ 0xffff ∧ trailing code = 2 ∧ lead code = code / 4096 + 0xe0 ∨
      0xffff < code ∧ trailing code = 3 ∧ lead code = code / 262144 + 0xf0 := by
  have places : Nat.pow 64 1 = 64 ∧ Nat.pow 64 2 = 4096 ∧ Nat.pow 64 3 = 262144 := by decide
  unfold lead trailing
  split
  · simp [mark, *]
  · split
    · simp [mark, *]
      omega
    · split
      · simp [mark, *]
        omega
      · simp [mark, *]
        omega

private theorem code_lt (char : Char) : char.val.toNat < 0x110000 := by
  have valid := char.valid
  simp only [UInt32.isValidChar, Nat.isValidChar] at valid
  omega

private theorem lead_lt {code : Nat} (valid : code < 0x110000) : lead code < 256 := by
  rcases trailing_cases code with ⟨_, _, first⟩ | ⟨_, _, _, first⟩ | ⟨_, _, _, first⟩ |
    ⟨_, _, first⟩ <;> omega

private theorem utf8EncodeChar_eq (char : Char) :
    String.utf8EncodeChar char =
      UInt8.ofNat (lead char.val.toNat) :: trail (trailing char.val.toNat) char.val.toNat := by
  have valid := code_lt char
  unfold String.utf8EncodeChar
  dsimp only
  generalize char.val.toNat = code at valid
  rcases trailing_cases code with ⟨most, size, first⟩ | ⟨least, most, size, first⟩ |
    ⟨least, most, size, first⟩ | ⟨least, size, first⟩
  · rw [if_pos most, size, first]
    rfl
  · rw [if_neg (by omega), if_pos most, Nat.mod_eq_of_lt (by omega : code / 64 < 32), size, first]
    simp [trail]
  · rw [if_neg (by omega), if_neg (by omega), if_pos most,
      Nat.mod_eq_of_lt (by omega : code / 4096 < 16), size, first]
    simp [trail]
  · rw [if_neg (by omega), if_neg (by omega), if_neg (by omega),
      Nat.mod_eq_of_lt (by omega : code / 262144 < 8), size, first]
    simp [trail]

/-! ## Comparing two of them -/

private theorem trail_append_lt {count lower upper : Nat} (below : lower < upper)
    (same : lower / Nat.pow 64 count = upper / Nat.pow 64 count) (after after' : Bytes) :
    trail count lower ++ after < trail count upper ++ after' := by
  induction count with
  | zero =>
      have single : Nat.pow 64 0 = 1 := rfl
      simp only [single, Nat.div_one] at same
      omega
  | succ count ih =>
      have grown : ∀ code, code / Nat.pow 64 (count + 1) = code / Nat.pow 64 count / 64 :=
        fun code => (Nat.div_div_eq_div_mul code (Nat.pow 64 count) 64).symm
      rw [grown, grown] at same
      have order := Nat.div_le_div_right (c := Nat.pow 64 count) (Nat.le_of_lt below)
      refine (ofNat_cons_lt_iff (by omega) (by omega)).mpr ?_
      rcases Nat.lt_or_eq_of_le order with smaller | equal
      · exact .inl (by omega)
      · exact .inr ⟨by rw [equal], ih equal⟩

/-- A longer encoding has the greater first byte. -/
private theorem lead_lt_lead {lower upper : Nat} (below : lower < upper)
    (sizes : trailing lower ≠ trailing upper) : lead lower < lead upper := by
  rcases trailing_cases lower with ⟨_, _, first⟩ | ⟨_, _, _, first⟩ | ⟨_, _, _, first⟩ |
    ⟨_, _, first⟩ <;>
  rcases trailing_cases upper with ⟨_, _, first'⟩ | ⟨_, _, _, first'⟩ | ⟨_, _, _, first'⟩ |
    ⟨_, _, first'⟩ <;>
  omega

/-- The order of two characters decides the order of whatever starts with them. -/
theorem utf8EncodeChar_append_lt {left right : Char} (below : left < right)
    (after after' : Bytes) :
    String.utf8EncodeChar left ++ after < String.utf8EncodeChar right ++ after' := by
  have order : left.val.toNat < right.val.toNat := below
  rw [utf8EncodeChar_eq, utf8EncodeChar_eq, List.cons_append, List.cons_append,
    ofNat_cons_lt_iff (lead_lt (code_lt left)) (lead_lt (code_lt right))]
  by_cases sizes : trailing left.val.toNat = trailing right.val.toNat
  · have bits := Nat.div_le_div_right (c := Nat.pow 64 (trailing right.val.toNat))
      (Nat.le_of_lt order)
    unfold lead
    rw [sizes]
    rcases Nat.lt_or_eq_of_le bits with smaller | equal
    · exact .inl (Nat.add_lt_add_right smaller _)
    · exact .inr ⟨by rw [equal], trail_append_lt order equal after after'⟩
  · exact .inl (lead_lt_lead order sizes)

end Bytes

namespace Text

private theorem flatMap_utf8_lt {left right : List Char} (below : left < right) :
    left.flatMap String.utf8EncodeChar < right.flatMap String.utf8EncodeChar := by
  induction left generalizing right with
  | nil =>
      cases right with
      | nil => exact absurd below (List.not_lt_nil _)
      | cons head rest =>
          obtain ⟨first, others, bytes⟩ := List.exists_cons_of_ne_nil
            (String.utf8EncodeChar_ne_nil (c := head))
          rw [List.flatMap_cons, bytes]
          exact List.nil_lt_cons _ _
  | cons char tail ih =>
      cases right with
      | nil => exact absurd below (List.not_lt_nil _)
      | cons head rest =>
          rw [List.flatMap_cons, List.flatMap_cons]
          rcases List.cons_lt_cons_iff.mp below with smaller | ⟨rfl, smaller⟩
          · exact Bytes.utf8EncodeChar_append_lt smaller _ _
          · exact List.append_left_lt (ih smaller)

/-- The order of texts is the order of their UTF-8 bytes. -/
theorem ofText_lt_ofText_iff {left right : String} :
    Bytes.ofText left < Bytes.ofText right ↔ left < right := by
  have forward : ∀ {first second : String}, first < second →
      Bytes.ofText first < Bytes.ofText second := by
    intro first second below
    rw [Bytes.ofText_eq_flatMap, Bytes.ofText_eq_flatMap]
    exact flatMap_utf8_lt (String.lt_iff.mp below)
  constructor
  · intro below
    rcases order : compare left right with _ | _ | _
    · exact compare_eq_lt_iff.mp order
    · rw [Std.LawfulEqOrd.eq_of_compare order] at below
      exact absurd below (List.lt_irrefl _)
    · exact absurd below (List.lt_asymm (forward (compare_eq_gt_iff.mp order)))
  · exact forward

end Text

end GuardedRows
