import GuardedRows.Proofs.Mutation.Cells

/-!
# The last write wins

A column holds after some writes what the last of them puts there that affects it, or else
what it held before. The row is gone if no column holds anything, and to apply the same writes
once more changes nothing.
-/

set_option autoImplicit false

namespace GuardedRows.Mutation

variable {mutation : Mutation} {current : Option Record}

/-- After the writes of a mutation a column is left with a value: the last write that affects
the column puts it there, or no write affects the column and it held the value before. -/
def Leaves (mutation : Mutation) (current : Option Record) (column : Column) (value : Bytes) :
    Prop :=
  Write.last? mutation.writes column = some (.put column value) ∨
    Write.last? mutation.writes column = none ∧ current.bind (·.get? column) = some value

theorem get?_applyTo_eq_some_iff {column : Column} {value : Bytes} :
    (mutation.applyTo current).bind (·.get? column) = some value ↔
      mutation.Leaves current column value := by
  rw [get?_applyTo, Write.foldl_onCell_eq_last?, Leaves]
  cases found : Write.last? mutation.writes column with
  | none => simp
  | some write =>
      obtain ⟨_, affects⟩ := Write.mem_of_last? found
      cases write with
      | put target other =>
          cases (of_decide_eq_true affects : target = column)
          simp [Write.left]
      | delete target => simp [Write.left]
      | deleteRow => simp [Write.left]

theorem applyTo_eq_none_iff :
    mutation.applyTo current = none ↔ ∀ column value, ¬mutation.Leaves current column value := by
  simp only [← get?_applyTo_eq_some_iff]
  constructor
  · intro gone column value
    rw [gone]
    exact Option.some_ne_none value ∘ Eq.symm
  · intro blank
    have empty : (mutation.written current).isEmpty = true :=
      SortedMap.isEmpty_iff.mpr fun column => by
        have cell := mutation.get?_applyTo current column
        rw [← get?_written] at cell
        exact cell.symm.trans (Option.eq_none_iff_forall_ne_some.mpr (blank column))
    rw [applyTo, empty]
    rfl

/-! ## Applying the same writes again -/

theorem foldl_onCell_again (writes : List Write) (column : Column) (cell : Option Bytes) :
    writes.foldl (Write.onCell column) (writes.foldl (Write.onCell column) cell) =
      writes.foldl (Write.onCell column) cell := by
  simp only [Write.foldl_onCell_eq_last?]
  cases Write.last? writes column <;> rfl

theorem get?_applyTo_again (mutation : Mutation) (current : Option Record) (column : Column) :
    (mutation.applyTo (mutation.applyTo current)).bind (·.get? column) =
      (mutation.applyTo current).bind (·.get? column) := by
  rw [get?_applyTo, get?_applyTo, foldl_onCell_again]

theorem written_again (mutation : Mutation) (current : Option Record) :
    mutation.written (some (mutation.written current)) = mutation.written current := by
  apply Record.ext_get?
  · simp only [row_written_eq, Option.getD_some]
    split <;> rfl
  · intro column
    rw [get?_written, Option.bind_some, get?_written, foldl_onCell_again]

theorem applyTo_again (mutation : Mutation) (current : Option Record) :
    mutation.applyTo (mutation.applyTo current) = mutation.applyTo current := by
  cases made : mutation.applyTo current with
  | none =>
      refine applyTo_eq_none_iff.mpr fun column value left => ?_
      have cell := mutation.get?_applyTo_again current column
      rw [made, get?_applyTo_eq_some_iff.mpr left] at cell
      cases cell
  | some record =>
      unfold applyTo at made
      dsimp only at made
      split at made
      · cases made
      · next kept =>
          cases made
          rw [applyTo, written_again, if_neg kept]

/-- A column holds a value after the writes exactly if the last write that affects it puts the
value there, or no write affects it and it held the value before. The row is gone exactly if
no column is left with a value. Applying the writes again changes nothing. -/
theorem applyTo_last_write_wins (mutation : Mutation) (current : Option Record) :
    (∀ column value, (mutation.applyTo current).bind (·.get? column) = some value ↔
      mutation.Leaves current column value) ∧
    (mutation.applyTo current = none ↔
      ∀ column value, ¬mutation.Leaves current column value) ∧
    mutation.applyTo (mutation.applyTo current) = mutation.applyTo current :=
  ⟨fun _ _ => get?_applyTo_eq_some_iff, applyTo_eq_none_iff, mutation.applyTo_again current⟩

end GuardedRows.Mutation
