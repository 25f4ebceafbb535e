import GuardedRows.Mutation
import GuardedRows.SortedMap.Lemmas

/-!
# Cells under writes

What a mutation makes of a record, cell by cell. The last write that affects a column decides
what the column holds, and a column that no write affects keeps what it held.
-/

set_option autoImplicit false

namespace GuardedRows

/-! ## Records -/

namespace Record

theorem get?_put (record : Record) (target column : Column) (value : Bytes) :
    (record.put target value).get? column =
      if target = column then some value else record.get? column := by
  by_cases same : target = column
  · subst same
    simp [get?, put]
  · simp [get?, put, same, SortedMap.get?_insert_of_ne (Ne.symm same)]

theorem get?_remove (record : Record) (target column : Column) :
    (record.remove target).get? column =
      if target = column then none else record.get? column := by
  by_cases same : target = column
  · subst same
    simp [get?, remove]
  · simp [get?, remove, same, SortedMap.get?_erase_of_ne (Ne.symm same)]

theorem get?_of_isEmpty {record : Record} (empty : record.isEmpty = true) (column : Column) :
    record.get? column = none :=
  SortedMap.isEmpty_iff.mp empty column

theorem isEmpty_put (record : Record) (column : Column) (value : Bytes) :
    (record.put column value).isEmpty = false := by
  rw [Bool.eq_false_iff]
  intro empty
  have cell := get?_of_isEmpty empty column
  simp [get?_put] at cell

/-- A record is no more than its row and its cells. -/
theorem ext_get? {left right : Record} (rows : left.row = right.row)
    (cells : ∀ column, left.get? column = right.get? column) : left = right := by
  have same : left.cells = right.cells := SortedMap.ext_get? cells
  cases left
  cases rows
  cases same
  rfl

theorem put_comm (record : Record) {left right : Column} (apart : left ≠ right)
    (value other : Bytes) :
    (record.put left value).put right other = (record.put right other).put left value := by
  refine ext_get? rfl fun column => ?_
  simp only [get?_put]
  by_cases first : left = column
  · subst first
    simp [apart.symm]
  · simp [first]

end Record

/-! ## Writes -/

namespace Write

def onCell (column : Column) (cell : Option Bytes) : Write → Option Bytes
  | .put target value => if target = column then some value else cell
  | .delete target => if target = column then none else cell
  | .deleteRow => none

/-- Whether a write decides what a column holds. -/
def affects (column : Column) : Write → Bool
  | .put target _ => target = column
  | .delete target => target = column
  | .deleteRow => true

/-- What a write leaves in the columns it affects. -/
def left : Write → Option Bytes
  | .put _ value => some value
  | .delete _ => none
  | .deleteRow => none

/-- The last of some writes that affects a column. -/
def last? (writes : List Write) (column : Column) : Option Write :=
  writes.reverse.find? (affects column)

theorem onCell_eq (column : Column) (cell : Option Bytes) (write : Write) :
    write.onCell column cell = if write.affects column then write.left else cell := by
  cases write <;> simp [onCell, affects, left]

theorem last?_cons (write : Write) (rest : List Write) (column : Column) :
    last? (write :: rest) column =
      (last? rest column).or (if write.affects column then some write else none) := by
  rw [last?, List.reverse_cons, List.find?_append, List.find?_singleton, last?]

theorem mem_of_last? {writes : List Write} {column : Column} {write : Write}
    (found : last? writes column = some write) :
    write ∈ writes ∧ write.affects column = true :=
  ⟨List.mem_reverse.mp (List.mem_of_find?_eq_some found), List.find?_some found⟩

theorem foldl_onCell_eq_last? (writes : List Write) (column : Column) (cell : Option Bytes) :
    writes.foldl (onCell column) cell = ((last? writes column).map left).getD cell := by
  induction writes generalizing cell with
  | nil => rfl
  | cons write rest ih =>
      rw [List.foldl_cons, ih, last?_cons, onCell_eq]
      cases last? rest column with
      | some later => rfl
      | none => cases write.affects column <;> rfl

/-- A cell stays, is emptied or holds a value that is put there. -/
theorem foldl_onCell (writes : List Write) (column : Column) (cell : Option Bytes) :
    writes.foldl (onCell column) cell = cell ∨
      writes.foldl (onCell column) cell = none ∨
      ∃ value, .put column value ∈ writes ∧
        writes.foldl (onCell column) cell = some value := by
  rw [foldl_onCell_eq_last?]
  cases found : last? writes column with
  | none => exact .inl rfl
  | some write =>
      obtain ⟨member, affects⟩ := mem_of_last? found
      cases write with
      | put target value =>
          cases (of_decide_eq_true affects : target = column)
          exact .inr (.inr ⟨value, member, rfl⟩)
      | delete target => exact .inr (.inl rfl)
      | deleteRow => exact .inr (.inl rfl)

theorem get?_applyTo (row : String) (record : Record) (column : Column) (write : Write) :
    (write.applyTo row record).get? column = write.onCell column (record.get? column) := by
  cases write with
  | put target value => exact record.get?_put target column value
  | delete target => exact record.get?_remove target column
  | deleteRow => rfl

end Write

/-! ## Mutations -/

namespace Mutation

theorem get?_written (mutation : Mutation) (current : Option Record) (column : Column) :
    (mutation.written current).get? column =
      mutation.writes.foldl (Write.onCell column) (current.bind (·.get? column)) := by
  have start : (current.getD (.blank mutation.row)).get? column =
      current.bind (·.get? column) := by
    cases current <;> rfl
  unfold written
  rw [← start]
  generalize current.getD (.blank mutation.row) = record
  induction mutation.writes generalizing record with
  | nil => rfl
  | cons write rest ih =>
      simp only [List.foldl_cons, ih, Write.get?_applyTo]

theorem get?_applyTo (mutation : Mutation) (current : Option Record) (column : Column) :
    (mutation.applyTo current).bind (·.get? column) =
      mutation.writes.foldl (Write.onCell column) (current.bind (·.get? column)) := by
  rw [← get?_written]
  unfold applyTo
  dsimp only
  split
  · next empty => rw [Record.get?_of_isEmpty empty]; rfl
  · rfl

/-- Only the removal of the row names the record anew. -/
theorem row_written_eq (mutation : Mutation) (current : Option Record) :
    (mutation.written current).row =
      if .deleteRow ∈ mutation.writes then mutation.row
      else (current.getD (.blank mutation.row)).row := by
  unfold written
  generalize current.getD (.blank mutation.row) = record
  induction mutation.writes generalizing record with
  | nil => rfl
  | cons write rest ih =>
      rw [List.foldl_cons, ih]
      cases write <;> simp [Write.applyTo, Record.put, Record.remove, Record.blank]

theorem row_written (mutation : Mutation) {current : Option Record}
    (filed : ∀ record ∈ current, record.row = mutation.row) :
    (mutation.written current).row = mutation.row := by
  rw [row_written_eq]
  split
  · rfl
  · cases current with
    | none => rfl
    | some record => exact filed record rfl

end Mutation

/-! ## Conditions -/

theorem Condition.holds_equals {column : Column} {value : Bytes} {current : Option Record} :
    (equals column value).holds current = true ↔ current.bind (·.get? column) = some value := by
  cases found : current.bind (·.get? column) with
  | none => simp [equals, holds, found]
  | some bytes => simp [equals, holds, found]

theorem Condition.holds_absent {column : Column} {current : Option Record} :
    (absent column).holds current = true ↔ current.bind (·.get? column) = none := by
  cases current with
  | none => simp [holds]
  | some record => simp [holds, Record.contains, SortedMap.contains, Record.get?]

end GuardedRows
