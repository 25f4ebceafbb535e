import GuardedRows.Proofs.Tx.ReservationText
import GuardedRows.Proofs.Tx.StepColumn
import GuardedRows.SortedMap.Lemmas
import GuardedRows.Tx.Snapshot

/-!
# Stacks in step columns

A stack is a list of steps with the top first. Its steps have the positions from its height
down to one, so the step columns of a record that holds a stack are, in column order, the
steps from the top down.
-/

set_option autoImplicit false

namespace GuardedRows.Tx

def positionOn (below : List Bytes) : UInt32 := UInt32.ofNat (below.length + 1)

def stackSteps : List Bytes → List (UInt32 × Bytes)
  | [] => []
  | step :: below => (positionOn below, step) :: stackSteps below

def stackCells (stack : List Bytes) : List (Column × Bytes) :=
  (stackSteps stack).map fun step => (stepColumn step.1, step.2)

/-- What a stack has in a column. -/
def stackCell (stack : List Bytes) (column : Column) : Option Bytes :=
  SortedMap.lookup column (stackCells stack)

abbrev Fits (stack : List Bytes) : Prop := stack.length ≤ lastPosition.toNat

theorem Fits.tail {step : Bytes} {below : List Bytes} (fits : Fits (step :: below)) :
    Fits below :=
  Nat.le_of_succ_le fits

theorem toNat_positionOn {step : Bytes} {below : List Bytes} (fits : Fits (step :: below)) :
    (positionOn below).toNat = below.length + 1 :=
  UInt32.toNat_ofNat_of_lt' (Nat.lt_succ_of_le fits)

/-! ## Positions -/

theorem position_le_of_mem {stack : List Bytes} (fits : Fits stack) {position : UInt32}
    {step : Bytes} (member : (position, step) ∈ stackSteps stack) :
    position.toNat ≤ stack.length := by
  induction stack with
  | nil => cases member
  | cons top below ih =>
      rcases List.mem_cons.mp member with same | member
      · cases same
        exact Nat.le_of_eq (toNat_positionOn fits)
      · exact Nat.le_succ_of_le (ih fits.tail member)

theorem positions_descend {stack : List Bytes} (fits : Fits stack) :
    (stackSteps stack).Pairwise fun upper lower => lower.1 < upper.1 := by
  induction stack with
  | nil => exact .nil
  | cons top below ih =>
      refine List.pairwise_cons.mpr ⟨fun lower member => ?_, ih fits.tail⟩
      have under := position_le_of_mem fits.tail member
      rw [UInt32.lt_iff_toNat_lt, toNat_positionOn fits]
      omega

theorem positions_stackSteps {stack : List Bytes} (fits : Fits stack) :
    (stackSteps stack).map (fun step => step.1.toNat) = (List.range' 1 stack.length).reverse := by
  induction stack with
  | nil => rfl
  | cons top below ih =>
      rw [List.length_cons, List.range'_concat, List.reverse_append, ← ih fits.tail]
      simp [stackSteps, toNat_positionOn fits, Nat.add_comm]

@[simp] theorem steps_stackSteps (stack : List Bytes) :
    (stackSteps stack).map Prod.snd = stack := by
  induction stack with
  | nil => rfl
  | cons top below ih => simp [stackSteps, ih]

@[simp] theorem length_stackSteps (stack : List Bytes) :
    (stackSteps stack).length = stack.length := by
  rw [← List.length_map, steps_stackSteps]

theorem positionOn_cons (step : Bytes) (below : List Bytes) :
    positionOn (step :: below) = positionOn below + 1 := by
  simp [positionOn, UInt32.ofNat_add]

theorem ne_positionOn_of_mem {step : Bytes} {below : List Bytes} (fits : Fits (step :: below))
    {entry : UInt32 × Bytes} (member : entry ∈ stackSteps below) :
    entry.1 ≠ positionOn below := by
  intro same
  have within := position_le_of_mem fits.tail member
  rw [same, toNat_positionOn fits] at within
  omega

/-! ## Cells -/

theorem stackCells_ascend {stack : List Bytes} (fits : Fits stack) :
    (stackCells stack).Pairwise fun left right => compare left.1 right.1 = .lt :=
  List.pairwise_map.mpr ((positions_descend fits).imp compare_stepColumn)

theorem stackCell_eq_some_iff {stack : List Bytes} (fits : Fits stack) {column : Column}
    {step : Bytes} : stackCell stack column = some step ↔ (column, step) ∈ stackCells stack :=
  ⟨SortedMap.mem_of_lookup, SortedMap.lookup_of_mem (stackCells_ascend fits)⟩

theorem stackCell_cons (step : Bytes) (below : List Bytes) (column : Column) :
    stackCell (step :: below) column =
      if stepColumn (positionOn below) = column then some step else stackCell below column := by
  simp only [stackCell, stackCells, stackSteps, List.map_cons, SortedMap.lookup,
    Std.compare_eq_iff_eq, @eq_comm _ column]

theorem stackCell_positionOn {step : Bytes} {below : List Bytes} (fits : Fits (step :: below)) :
    stackCell below (stepColumn (positionOn below)) = none := by
  cases found : stackCell below (stepColumn (positionOn below)) with
  | none => rfl
  | some other =>
      obtain ⟨⟨position, bytes⟩, member, same⟩ :=
        List.mem_map.mp ((stackCell_eq_some_iff fits.tail).mp found)
      exact absurd (stepColumn_injective (congrArg Prod.fst same))
        (ne_positionOn_of_mem fits member)

theorem readSteps_map_stepColumn (steps : List (UInt32 × Bytes)) :
    Snapshot.readSteps (steps.map fun step => (stepColumn step.1, step.2)) = .ok steps := by
  induction steps with
  | nil => rfl
  | cons step rest ih =>
      obtain ⟨position, bytes⟩ := step
      rw [List.map_cons, Snapshot.readSteps, stepPosition_stepColumn, ih]
      rfl

/-! ## Records -/

theorem family_eq_stackCells {record : Record} {stack : List Bytes} (fits : Fits stack)
    (steps : ∀ column, column.family = stepFamily →
      record.get? column = stackCell stack column) :
    record.family stepFamily = stackCells stack := by
  refine SortedMap.eq_of_ascending_of_mem_iff (record.cells.ascending.filter _)
    (stackCells_ascend fits) ?_
  rintro ⟨column, step⟩
  have stored : (column, step) ∈ record.toList ↔ record.get? column = some step :=
    SortedMap.mem_toList_iff
  rw [← stackCell_eq_some_iff fits]
  constructor
  · intro member
    obtain ⟨member, family⟩ := List.mem_filter.mp member
    rw [← steps column (of_decide_eq_true family)]
    exact stored.mp member
  · intro found
    have family : column.family = stepFamily := by
      obtain ⟨_, _, same⟩ := List.mem_map.mp ((stackCell_eq_some_iff fits).mp found)
      cases same
      rfl
    exact List.mem_filter.mpr
      ⟨stored.mpr ((steps column family).trans found), decide_eq_true family⟩

/-- The record of a transaction with a stack, as far as it has to read. -/
structure Stacked (record : Record) (id : Id) (stack : List Bytes) : Prop where
  row : record.row = id.text
  reservation : ∀ bytes, record.get? reservationColumn = some bytes →
    ∃ reservation : Reservation, bytes = Bytes.ofText reservation.text
  steps : ∀ column, column.family = stepFamily → record.get? column = stackCell stack column

/-- The record of a transaction with a stack reads, and its steps are those of the stack. -/
theorem Stacked.ofRecord {record : Record} {id : Id} {stack : List Bytes}
    (stacked : Stacked record id stack) (fits : Fits stack) :
    ∃ snapshot, Snapshot.ofRecord record = .ok snapshot ∧ snapshot.steps = stackSteps stack := by
  have reservation : ∃ reservation, Snapshot.readReservation record = .ok reservation := by
    unfold Snapshot.readReservation Record.text?
    cases found : record.get? reservationColumn with
    | none => exact ⟨none, rfl⟩
    | some bytes =>
        obtain ⟨reservation, rfl⟩ := stacked.reservation bytes found
        obtain ⟨read, parsed⟩ := reservation.exists_parse_text
        simp only [Option.bind_some, Bytes.text?_ofText, parsed]
        exact ⟨some read, rfl⟩
  obtain ⟨reservation, readReservation⟩ := reservation
  have steps : Snapshot.readSteps (record.family stepFamily) = .ok (stackSteps stack) := by
    rw [family_eq_stackCells fits stacked.steps]
    exact readSteps_map_stepColumn _
  unfold Snapshot.ofRecord
  simp only [stacked.row, Id.parse_text, readReservation, steps, bind, Except.bind]
  exact ⟨_, rfl, rfl⟩

theorem topPosition_eq {snapshot : Snapshot} {stack : List Bytes}
    (steps : snapshot.steps = stackSteps stack) :
    snapshot.topPosition = (stackSteps stack).head?.map Prod.fst := by
  rw [Snapshot.topPosition, steps]

theorem top?_eq {snapshot : Snapshot} {stack : List Bytes}
    (steps : snapshot.steps = stackSteps stack) : snapshot.top? = stack.head? := by
  rw [Snapshot.top?, topPosition_eq steps]
  cases stack with
  | nil => rfl
  | cons top below => simp [Snapshot.step?, steps, stackSteps]

end GuardedRows.Tx
