import GuardedRows.KeyRange
import GuardedRows.Proofs.Text.Order
import GuardedRows.Tablet.Extent

/-!
# Ranges of keys and extents of rows

A range of keys can begin and end inside a row, an extent holds whole rows. The two share a
key exactly if the extent does not end before the row the range starts in and the first key
of the extent is not behind the range, provided the range holds any key at all.
-/

set_option autoImplicit false

namespace GuardedRows

/-! ## The order of keys -/

namespace Key

theorem before_iff (left right : Key) :
    left.before right = true ↔
      left.row < right.row ∨ left.row = right.row ∧
        (left.family < right.family ∨
          left.family = right.family ∧ left.qualifier < right.qualifier) := by
  have unfolded : compare left right =
      (compare left.row right.row).then
        ((compare left.family right.family).then (compare left.qualifier right.qualifier)) :=
    rfl
  simp only [before, decide_eq_true_eq, unfolded, Ordering.then_eq_lt, Text.compare_eq_lt_iff,
    Std.compare_eq_iff_eq]

def next (key : Key) : Key := { key with qualifier := key.qualifier.push '\x00' }

theorem before_next (key : Key) : key.before key.next = true := by
  rw [before_iff]
  exact .inr ⟨rfl, .inr ⟨rfl, Text.lt_push_zero key.qualifier⟩⟩

theorem before_irrefl (key : Key) : key.before key = false := by
  simp [before, Std.ReflCmp.compare_self]

theorem before_trans {left middle right : Key} (first : left.before middle = true)
    (second : middle.before right = true) : left.before right = true := by
  simp only [before, decide_eq_true_eq] at first second ⊢
  exact Std.TransCmp.lt_trans first second

theorem eq_of_not_before {left right : Key} (first : left.before right = false)
    (second : right.before left = false) : left = right := by
  simp only [before, decide_eq_false_iff_not] at first second
  refine Std.LawfulEqOrd.eq_of_compare ?_
  cases order : compare left right with
  | lt => exact absurd order first
  | eq => rfl
  | gt => exact absurd (Std.OrientedCmp.gt_iff_lt.mp order) second

theorem before_of_not_before {left middle right : Key} (first : middle.before left = false)
    (second : middle.before right = true) : left.before right = true := by
  cases order : left.before middle with
  | true => exact before_trans order second
  | false => exact eq_of_not_before order first ▸ second

theorem before_of_before {left middle right : Key} (first : left.before middle = true)
    (second : right.before middle = false) : left.before right = true := by
  cases order : middle.before right with
  | true => exact before_trans first order
  | false => exact eq_of_not_before order second ▸ first

theorem not_before_trans {left middle right : Key} (first : middle.before left = false)
    (second : right.before middle = false) : right.before left = false := by
  cases order : right.before left with
  | false => rfl
  | true => exact (before_of_before order first).symm.trans second

theorem row_le_of_not_before {left right : Key} (order : right.before left = false) :
    left.row ≤ right.row := by
  rw [← String.not_lt]
  intro below
  have smaller := (before_iff right left).mpr (.inl below)
  simp [smaller] at order

theorem not_before_next {left right : Key} (after : left.before right = true) :
    right.before left.next = false := by
  rw [Bool.eq_false_iff]
  intro below
  rw [before_iff] at after below
  have gap := fun smaller : left.qualifier < right.qualifier =>
    Text.push_zero_le_iff.mpr smaller
  simp only [next] at below
  grind

theorem before_followingRow_iff (key : Key) (row : String) :
    key.before (firstOf row).followingRow = true ↔ key.row ≤ row := by
  have family : ¬ key.family < "" := Text.empty_le key.family
  have qualifier : ¬ key.qualifier < "" := Text.empty_le key.qualifier
  have rows : key.row < row.push '\x00' ↔ key.row ≤ row := by
    rw [← String.not_le, Text.push_zero_le_iff, String.not_lt]
  simp [before_iff, followingRow, firstOf, rows, family, qualifier]

end Key

/-! ## Ranges -/

namespace RowRange

variable {range : RowRange}

theorem afterEnd_mono {left right : Key} (order : right.before left = false)
    (past : range.afterEnd left = true) : range.afterEnd right = true := by
  cases bound : range.stop with
  | none => simp [afterEnd, bound] at past
  | some stop =>
      cases inclusive : range.stopInclusive with
      | true =>
          simp only [afterEnd, bound, inclusive, ↓reduceIte] at past ⊢
          exact Key.before_of_before past order
      | false =>
          simp only [afterEnd, bound, inclusive, Bool.false_eq_true, ↓reduceIte,
            Bool.not_eq_true'] at past ⊢
          exact Key.not_before_trans past order

def least (range : RowRange) : Key :=
  match range.start with
  | none => .firstOf ""
  | some start => if range.startInclusive then start else start.next

/-- A key lies ahead of the range exactly if it is before the least key. -/
theorem beforeStart_eq (key : Key) : range.beforeStart key = key.before range.least := by
  cases bound : range.start with
  | none =>
      have family : ¬ key.family < "" := Text.empty_le key.family
      have qualifier : ¬ key.qualifier < "" := Text.empty_le key.qualifier
      have row : ¬ key.row < "" := Text.empty_le key.row
      have first : key.before (.firstOf "") = false := by
        simp [Bool.eq_false_iff, Key.before_iff, Key.firstOf, row, family, qualifier]
      simp [beforeStart, least, bound, first]
  | some start =>
      cases inclusive : range.startInclusive with
      | true => simp [beforeStart, least, bound, inclusive]
      | false =>
          simp only [beforeStart, least, bound, inclusive, Bool.false_eq_true, ↓reduceIte]
          cases behind : start.before key with
          | true => rw [Key.not_before_next behind]; rfl
          | false => rw [Key.before_of_not_before behind start.before_next]; rfl

theorem contains_iff (key : Key) :
    range.contains key = true ↔
      key.before range.least = false ∧ range.afterEnd key = false := by
  simp [contains, beforeStart_eq]

theorem contains_least {key : Key} (inside : range.contains key = true) :
    range.contains range.least = true := by
  obtain ⟨order, within⟩ := (contains_iff key).mp inside
  refine (contains_iff range.least).mpr ⟨range.least.before_irrefl, ?_⟩
  cases past : range.afterEnd range.least with
  | false => rfl
  | true => exact (afterEnd_mono order past).symm.trans within

theorem row_least : range.least.row = (range.start.map Key.row).getD "" := by
  unfold least
  cases range.start with
  | none => rfl
  | some start => cases range.startInclusive <;> rfl

/-! ## Ranges and extents -/

open Tablet (Extent)

def Meets (range : RowRange) (extent : Extent) : Prop :=
  ∃ key, range.contains key = true ∧ extent.contains key.row = true

/-- The extent does not end before the row the range starts in, and the first key behind its
previous end row is not behind the range. -/
structure Covers (range : RowRange) (extent : Extent) : Prop where
  start : ∀ start ∈ range.start, ∀ endRow ∈ extent.endRow, start.row ≤ endRow
  stop : ∀ previous ∈ extent.previousEndRow,
    range.afterEnd (Key.firstOf previous).followingRow = false

theorem Meets.covers {extent : Extent} (meets : range.Meets extent) : range.Covers extent := by
  obtain ⟨key, inside, row⟩ := meets
  obtain ⟨order, within⟩ := (contains_iff key).mp inside
  simp only [Extent.contains, Bool.and_eq_true, Option.all_eq_true, decide_eq_true_eq] at row
  constructor
  · intro start bound endRow last
    have least : range.least.row = start.row := by simp [row_least, Option.mem_def.mp bound]
    have first := Key.row_le_of_not_before order
    rw [least] at first
    exact Std.le_trans first (row.2 endRow last)
  · intro previous bound
    have above : previous < key.row := row.1 previous bound
    have behind : key.before (Key.firstOf previous).followingRow = false := by
      rw [Bool.eq_false_iff, ne_eq, Key.before_followingRow_iff, String.not_le]
      exact above
    cases past : range.afterEnd (Key.firstOf previous).followingRow with
    | false => rfl
    | true => exact (afterEnd_mono behind past).symm.trans within

theorem Covers.row_least_le {extent : Extent} (covers : range.Covers extent) {endRow : String}
    (last : endRow ∈ extent.endRow) : range.least.row ≤ endRow := by
  rw [row_least]
  cases bound : range.start with
  | none => exact Text.empty_le endRow
  | some start => exact covers.start start bound endRow last

/-- A range that starts at or before a row goes on behind it unless it has ended. -/
theorem contains_followingRow {previous : String} (below : range.least.row ≤ previous)
    (within : range.afterEnd (Key.firstOf previous).followingRow = false) :
    range.contains (Key.firstOf previous).followingRow = true := by
  have first := (Key.before_followingRow_iff range.least previous).mpr below
  refine (contains_iff _).mpr ⟨?_, within⟩
  cases order : (Key.firstOf previous).followingRow.before range.least with
  | false => rfl
  | true =>
      have loop := Key.before_trans first order
      rw [Key.before_irrefl] at loop
      cases loop

theorem Covers.meets {extent : Extent} (covers : range.Covers extent)
    (proper : ∀ previous ∈ extent.previousEndRow, ∀ endRow ∈ extent.endRow, previous < endRow)
    {key : Key} (inside : range.contains key = true) : range.Meets extent := by
  by_cases after : ∀ previous ∈ extent.previousEndRow, previous < range.least.row
  · refine ⟨range.least, contains_least inside, ?_⟩
    simp only [Extent.contains, Bool.and_eq_true, Option.all_eq_true, decide_eq_true_eq]
    exact ⟨after, fun endRow last => covers.row_least_le last⟩
  · simp only [Classical.not_forall, String.not_lt] at after
    obtain ⟨previous, bound, startsBefore⟩ := after
    have firstInside := contains_followingRow startsBefore (covers.stop previous bound)
    refine ⟨(Key.firstOf previous).followingRow, firstInside, ?_⟩
    simp only [Extent.contains, Bool.and_eq_true, Option.all_eq_true, decide_eq_true_eq]
    constructor
    · intro other same
      cases Option.mem_unique same bound
      exact Text.lt_push_zero previous
    · intro endRow last
      exact Text.push_zero_le_iff.mpr (proper previous bound endRow last)

end RowRange

end GuardedRows
