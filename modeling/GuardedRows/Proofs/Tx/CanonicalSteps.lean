import GuardedRows.Proofs.Tx.Stack

/-!
# Steps in canonical columns

A record whose step columns are all columns of positions reads, as far as its steps go, and
lists them from the highest position down. What it lists at a position is what it has in the
column of the position.
-/

set_option autoImplicit false

namespace GuardedRows.Tx

/-- The step columns of a record are the ones that positions have. -/
def Canonical (record : Record) : Prop :=
  ∀ column, column.family = stepFamily → record.get? column ≠ none →
    ∃ position, column = stepColumn position

def stepCells (steps : List (UInt32 × Bytes)) : List (Column × Bytes) :=
  steps.map fun step => (stepColumn step.1, step.2)

theorem lt_of_compare_stepColumn {left right : UInt32}
    (order : compare (stepColumn left) (stepColumn right) = .lt) : right < left := by
  refine UInt32.not_le.mp fun within => ?_
  rcases UInt32.lt_or_eq_of_le within with below | rfl
  · rw [Std.OrientedCmp.gt_of_lt (compare_stepColumn below)] at order
    cases order
  · have same : compare (stepColumn left) (stepColumn left) = .eq := Std.ReflCmp.compare_self
    rw [same] at order
    cases order

theorem mem_family_iff {record : Record} {name : String} {column : Column} {value : Bytes} :
    (column, value) ∈ record.family name ↔
      column.family = name ∧ record.get? column = some value := by
  have stored : (column, value) ∈ record.toList ↔ record.get? column = some value :=
    SortedMap.mem_toList_iff
  rw [Record.family, List.mem_filter, stored, decide_eq_true_iff, and_comm]

private theorem exists_stepCells {cells : List (Column × Bytes)}
    (placed : ∀ cell ∈ cells, ∃ position, cell.1 = stepColumn position) :
    ∃ steps, cells = stepCells steps := by
  induction cells with
  | nil => exact ⟨[], rfl⟩
  | cons cell rest ih =>
      obtain ⟨position, column⟩ := placed cell List.mem_cons_self
      obtain ⟨steps, rfl⟩ := ih fun other member => placed other (.tail _ member)
      exact ⟨(position, cell.2) :: steps, congrArg (· :: stepCells steps) (Prod.ext column rfl)⟩

/-- A list of steps is what a record has in its step columns. -/
structure Lists (record : Record) (steps : List (UInt32 × Bytes)) : Prop where
  cells : record.family stepFamily = stepCells steps
  descending : steps.Pairwise fun upper lower => lower.1 < upper.1

theorem Canonical.exists_lists {record : Record} (canonical : Canonical record) :
    ∃ steps, Lists record steps := by
  have placed : ∀ cell ∈ record.family stepFamily, ∃ position, cell.1 = stepColumn position := by
    rintro ⟨column, value⟩ member
    obtain ⟨family, stored⟩ := mem_family_iff.mp member
    refine canonical column family ?_
    rw [stored]
    exact Option.some_ne_none value
  obtain ⟨steps, cells⟩ := exists_stepCells placed
  refine ⟨steps, cells, ?_⟩
  have ascending : (stepCells steps).Pairwise fun left right => compare left.1 right.1 = .lt :=
    cells ▸ record.cells.ascending.filter _
  exact (List.pairwise_map.mp ascending).imp lt_of_compare_stepColumn

namespace Lists

variable {record : Record} {steps : List (UInt32 × Bytes)}

theorem readSteps (lists : Lists record steps) :
    Snapshot.readSteps (record.family stepFamily) = .ok steps := by
  rw [lists.cells]
  exact readSteps_map_stepColumn steps

theorem mem_iff (lists : Lists record steps) {position : UInt32} {step : Bytes} :
    (position, step) ∈ steps ↔ record.get? (stepColumn position) = some step := by
  have placed : (stepColumn position, step) ∈ record.family stepFamily ↔
      record.get? (stepColumn position) = some step := by
    rw [mem_family_iff]
    exact and_iff_right rfl
  rw [← placed, lists.cells, stepCells, List.mem_map]
  constructor
  · intro member
    exact ⟨_, member, rfl⟩
  · rintro ⟨⟨other, bytes⟩, member, same⟩
    obtain ⟨column, rfl⟩ := Prod.mk.inj same
    exact stepColumn_injective column ▸ member

end Lists

/-! ## Steps by position -/

/-- In a list of steps with descending positions a step is found at its position. -/
theorem find?_position_iff {steps : List (UInt32 × Bytes)}
    (descending : steps.Pairwise fun upper lower => lower.1 < upper.1) {position : UInt32}
    {step : Bytes} :
    (steps.find? (·.1 = position)).map Prod.snd = some step ↔ (position, step) ∈ steps := by
  induction steps with
  | nil => simp
  | cons top below ih =>
      obtain ⟨under, rest⟩ := List.pairwise_cons.mp descending
      by_cases found : top.1 = position
      · subst found
        rw [List.find?_cons_of_pos (by simp), List.mem_cons]
        constructor
        · intro same
          cases same
          exact .inl rfl
        · rintro (same | member)
          · exact congrArg some (congrArg Prod.snd same).symm
          · exact absurd (under _ member) (UInt32.lt_irrefl _)
      · have other : (position, step) ≠ top := fun same => found (same ▸ rfl)
        rw [List.find?_cons_of_neg (by simpa using found), ih rest, List.mem_cons,
          or_iff_right other]

namespace Snapshot

theorem step?_eq_some_iff {snapshot : Snapshot} {record : Record}
    (lists : Lists record snapshot.steps) {position : UInt32} {step : Bytes} :
    snapshot.step? position = some step ↔
      record.get? (stepColumn position) = some step := by
  rw [step?, find?_position_iff lists.descending, lists.mem_iff]

theorem step?_eq {snapshot : Snapshot} {record : Record}
    (lists : Lists record snapshot.steps) (position : UInt32) :
    snapshot.step? position = record.get? (stepColumn position) :=
  Option.ext fun _ => step?_eq_some_iff lists

theorem topPosition_eq_some_iff {snapshot : Snapshot}
    (descending : snapshot.steps.Pairwise fun upper lower => lower.1 < upper.1)
    {position : UInt32} :
    snapshot.topPosition = some position ↔
      position ∈ snapshot.steps.map Prod.fst ∧
        ∀ other ∈ snapshot.steps.map Prod.fst, other ≤ position := by
  have positions : (snapshot.steps.map Prod.fst).Pairwise fun upper lower => lower < upper :=
    List.pairwise_map.mpr descending
  rw [topPosition, ← List.head?_map]
  cases shape : snapshot.steps.map Prod.fst with
  | nil => simp
  | cons top below =>
      rw [shape] at positions
      have under := (List.pairwise_cons.mp positions).1
      rw [List.head?_cons, Option.some_inj]
      constructor
      · rintro rfl
        refine ⟨List.mem_cons_self, fun other member => ?_⟩
        rcases List.mem_cons.mp member with rfl | member
        · exact UInt32.le_refl _
        · exact UInt32.le_of_lt (under other member)
      · rintro ⟨member, highest⟩
        rcases List.mem_cons.mp member with same | member
        · exact same.symm
        · have within := highest top List.mem_cons_self
          exact absurd (under position member) (UInt32.not_lt.mpr within)

theorem top?_eq_some_iff {snapshot : Snapshot}
    (descending : snapshot.steps.Pairwise fun upper lower => lower.1 < upper.1) {step : Bytes} :
    snapshot.top? = some step ↔
      ∃ position, (position, step) ∈ snapshot.steps ∧
        ∀ other ∈ snapshot.steps, other.1 ≤ position := by
  simp only [top?, Option.bind_eq_some_iff, topPosition_eq_some_iff descending, step?,
    find?_position_iff descending, List.forall_mem_map]
  constructor
  · rintro ⟨position, ⟨_, highest⟩, member⟩
    exact ⟨position, member, highest⟩
  · rintro ⟨position, member, highest⟩
    exact ⟨position, ⟨List.mem_map.mpr ⟨_, member, rfl⟩, highest⟩, member⟩

/-- The top is the step at the highest position. -/
theorem top?_of_highest {snapshot : Snapshot}
    (descending : snapshot.steps.Pairwise fun upper lower => lower.1 < upper.1)
    {position : UInt32} {step : Bytes} (found : snapshot.step? position = some step)
    (highest : ∀ other, (snapshot.step? other).isSome = true → other ≤ position) :
    snapshot.top? = some step := by
  refine (top?_eq_some_iff descending).mpr
    ⟨position, (find?_position_iff descending).mp found, fun other member => ?_⟩
  have stored : snapshot.step? other.1 = some other.2 := (find?_position_iff descending).mpr member
  exact highest other.1 (Option.isSome_of_eq_some stored)

end Snapshot

end GuardedRows.Tx
