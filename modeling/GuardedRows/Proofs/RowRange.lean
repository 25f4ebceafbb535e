import GuardedRows.Proofs.KeyRange

/-!
# Ranges of whole rows

A range of whole rows is kept as a range of keys: the first key of a row stands for the row,
and the first key of the row that comes next stands for everything behind it. A key lies in
the range exactly if its row does, whatever its family and its qualifier are.
-/

set_option autoImplicit false

namespace GuardedRows

theorem Key.before_firstOf_iff (key : Key) (row : String) :
    key.before (firstOf row) = true ↔ key.row < row := by
  have family : ¬ key.family < "" := Text.empty_le key.family
  have qualifier : ¬ key.qualifier < "" := Text.empty_le key.qualifier
  simp [before_iff, firstOf, family, qualifier]

namespace RowRange

/-- A row is at the start row or after it, or only after it if the start row is left out. -/
def Begun (start : Option String) (inclusive : Bool) (row : String) : Prop :=
  ∀ first ∈ start, if inclusive = true then first ≤ row else first < row

/-- A row is at the end row or before it, or only before it if the end row is left out. -/
def NotOver (stop : Option String) (inclusive : Bool) (row : String) : Prop :=
  ∀ last ∈ stop, if inclusive = true then row ≤ last else row < last

theorem beforeStart_ofRows_iff (start stop : Option String)
    (startInclusive stopInclusive : Bool) (key : Key) :
    (ofRows start startInclusive stop stopInclusive).beforeStart key = true ↔
      ¬ Begun start startInclusive key.row := by
  cases start with
  | none => simp [ofRows, beforeStart, Begun]
  | some first =>
      cases startInclusive with
      | true =>
          have below := (Key.before_firstOf_iff key first).trans String.not_le.symm
          simpa only [ofRows, beforeStart, Begun, Option.map_some, Option.mem_some_iff,
            forall_eq', ↓reduceIte] using below
      | false =>
          have upTo := (Key.before_followingRow_iff key first).trans String.not_lt.symm
          simpa only [ofRows, beforeStart, Begun, Option.map_some, Option.mem_some_iff,
            forall_eq', Bool.false_eq_true, ↓reduceIte] using upTo

theorem afterEnd_ofRows_iff (start stop : Option String) (startInclusive stopInclusive : Bool)
    (key : Key) :
    (ofRows start startInclusive stop stopInclusive).afterEnd key = true ↔
      ¬ NotOver stop stopInclusive key.row := by
  cases stop with
  | none => simp [ofRows, afterEnd, NotOver]
  | some last =>
      cases stopInclusive with
      | true =>
          have upTo := not_congr (Key.before_followingRow_iff key last)
          simpa only [ofRows, afterEnd, NotOver, Option.map_some, Option.mem_some_iff,
            forall_eq', Bool.false_eq_true, ↓reduceIte, Bool.not_eq_true', Bool.not_eq_true]
            using upTo
      | false =>
          have below := not_congr (Key.before_firstOf_iff key last)
          simpa only [ofRows, afterEnd, NotOver, Option.map_some, Option.mem_some_iff,
            forall_eq', Bool.false_eq_true, ↓reduceIte, Bool.not_eq_true', Bool.not_eq_true]
            using below

/-- A key is in a range of whole rows exactly if its row is between the two rows, either of
which counts as inside or outside by itself, and it lies on a side of the range exactly if
its row fails the bound on that side. -/
theorem ofRows_compares_rows (start stop : Option String) (startInclusive stopInclusive : Bool)
    (key : Key) :
    let range := ofRows start startInclusive stop stopInclusive
    (range.contains key = true ↔
      Begun start startInclusive key.row ∧ NotOver stop stopInclusive key.row) ∧
    (range.beforeStart key = true ↔ ¬ Begun start startInclusive key.row) ∧
    (range.afterEnd key = true ↔ ¬ NotOver stop stopInclusive key.row) := by
  intro range
  have ahead := beforeStart_ofRows_iff start stop startInclusive stopInclusive key
  have behind := afterEnd_ofRows_iff start stop startInclusive stopInclusive key
  refine ⟨?_, ahead, behind⟩
  simp only [contains, Bool.and_eq_true, Bool.not_eq_true', Bool.eq_false_iff, ne_eq]
  rw [ahead, behind, Classical.not_not, Classical.not_not]

/-- The row behind the last one is the row with a zero character, and it is outside. -/
example :
    let range := ofRows (some "a") false (some "m") true
    range.contains ⟨"m", "zzz", "zzz"⟩ = true ∧ range.contains ⟨"m\x00", "", ""⟩ = false := by
  decide +kernel

end RowRange

end GuardedRows
