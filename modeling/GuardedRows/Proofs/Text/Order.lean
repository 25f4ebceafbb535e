import GuardedRows.Text

/-!
# Neighbours in the order of texts

A text with a zero character behind it is the next text: none lies between the two. Texts
that start alike are ordered by what follows, and texts that start differently, with as many
characters, by how they start.
-/

set_option autoImplicit false

namespace GuardedRows.Text

private theorem not_lt_append_zero_of_lt {left right : List Char} (below : left < right) :
    ¬ right < left ++ ['\x00'] := by
  induction left generalizing right with
  | nil =>
      cases right with
      | nil => exact absurd below (List.not_lt_nil _)
      | cons head rest =>
          intro above
          rcases List.cons_lt_cons_iff.mp above with smaller | ⟨_, smaller⟩
          · exact Nat.not_lt_zero _ smaller
          · exact List.not_lt_nil _ smaller
  | cons first tail ih =>
      cases right with
      | nil => exact absurd below (List.not_lt_nil _)
      | cons head rest =>
          intro above
          rcases List.cons_lt_cons_iff.mp below with smaller | ⟨rfl, smaller⟩
          · rcases List.cons_lt_cons_iff.mp above with larger | ⟨rfl, _⟩
            · exact Char.lt_asymm smaller larger
            · exact Char.lt_irrefl _ smaller
          · rcases List.cons_lt_cons_iff.mp above with larger | ⟨_, larger⟩
            · exact Char.lt_irrefl _ larger
            · exact ih smaller larger

theorem lt_push_zero (text : String) : text < text.push '\x00' := by
  rw [String.lt_iff, String.toList_push]
  simpa using List.append_left_lt (List.nil_lt_cons '\x00' [])

/-- No text lies between a text and the same text with a zero character behind it. -/
theorem push_zero_le_iff {left right : String} : left.push '\x00' ≤ right ↔ left < right := by
  constructor
  · intro above
    exact Std.lt_of_lt_of_le (lt_push_zero left) above
  · intro below
    rw [← String.not_lt, String.lt_iff, String.toList_push]
    exact not_lt_append_zero_of_lt (String.lt_iff.mp below)

/-- Two starts of one length decide the order of whatever starts with them. -/
theorem append_lt_append_of_lt {α : Type} [LT α] {left right : List α} (below : left < right)
    (same : left.length = right.length) (after after' : List α) :
    left ++ after < right ++ after' := by
  induction left generalizing right with
  | nil =>
      cases right with
      | nil => exact absurd below (List.not_lt_nil _)
      | cons head rest => cases same
  | cons first tail ih =>
      cases right with
      | nil => cases same
      | cons head rest =>
          rcases List.cons_lt_cons_iff.mp below with smaller | ⟨rfl, smaller⟩
          · exact List.cons_lt_cons_iff.mpr (.inl smaller)
          · exact List.cons_lt_cons_iff.mpr (.inr ⟨rfl, ih smaller (Nat.succ.inj same)⟩)

/-- Of two texts of one length, either the starts are ordered or the rests are. -/
theorem take_lt_or_drop_lt {α : Type} [LT α] {left right : List α} (count : Nat)
    (below : left < right) (same : left.length = right.length) :
    left.take count < right.take count ∨
      left.take count = right.take count ∧ left.drop count < right.drop count := by
  induction count generalizing left right with
  | zero => exact .inr ⟨rfl, below⟩
  | succ count ih =>
      cases left with
      | nil =>
          cases right with
          | nil => exact absurd below (List.not_lt_nil _)
          | cons head rest => cases same
      | cons first tail =>
          cases right with
          | nil => cases same
          | cons head rest =>
              rcases List.cons_lt_cons_iff.mp below with smaller | ⟨rfl, smaller⟩
              · exact .inl (List.cons_lt_cons_iff.mpr (.inl smaller))
              · rcases ih smaller (Nat.succ.inj same) with front | ⟨front, back⟩
                · exact .inl (List.cons_lt_cons_iff.mpr (.inr ⟨rfl, front⟩))
                · exact .inr ⟨congrArg (first :: ·) front, back⟩

private theorem lt_of_append_lt {front left right : List Char}
    (below : front ++ left < front ++ right) : left < right := by
  induction front with
  | nil => exact below
  | cons head rest ih =>
      rcases List.cons_lt_cons_iff.mp below with smaller | ⟨_, smaller⟩
      · exact absurd smaller (Char.lt_irrefl head)
      · exact ih smaller

theorem append_lt_append_iff (front : String) {left right : String} :
    front ++ left < front ++ right ↔ left < right := by
  simp only [String.lt_iff, String.toList_append]
  exact ⟨lt_of_append_lt, List.append_left_lt⟩

theorem append_le_append_iff (front : String) {left right : String} :
    front ++ left ≤ front ++ right ↔ left ≤ right := by
  rw [← String.not_lt, ← String.not_lt, append_lt_append_iff]

theorem empty_le (text : String) : "" ≤ text := by
  change ¬ text.toList < "".toList
  exact List.not_lt_nil _

end GuardedRows.Text
