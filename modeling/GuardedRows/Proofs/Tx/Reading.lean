import GuardedRows.Proofs.Tx.StackOperations

/-!
# Records that read

In a store that keeps stacks every record reads. Its steps are those of the stack, its status
is the one its cell names, and its reservation is what the stored text reads as, which need
not be the reservation that was written.
-/

set_option autoImplicit false

namespace GuardedRows.Tx

@[simp] theorem Snapshot.readStatus_text (status : Status) : readStatus status.text = status := by
  rw [readStatus, Status.parse_text]

theorem Snapshot.fields_of_ofRecord {record : Record} {snapshot : Snapshot}
    (read : ofRecord record = .ok snapshot) :
    Id.parse record.row = .ok snapshot.id ∧
      snapshot.status = (record.text? statusColumn).map readStatus ∧
      readReservation record = .ok snapshot.reservation := by
  unfold ofRecord at read
  obtain ⟨id, parsed, read⟩ := StoreStep.exists_of_bind read
  obtain ⟨reservation, reserved, read⟩ := StoreStep.exists_of_bind read
  obtain ⟨steps, _, read⟩ := StoreStep.exists_of_bind read
  cases read
  exact ⟨parsed, rfl, reserved⟩

namespace Stacks

variable {limit : UInt32} {piles : Id → List Bytes} {store : Memory} {id : Id}

/-- A record reads as the transaction of its row. -/
theorem exists_ofRecord (holds : Stacks limit piles store) {record : Record}
    (found : store.read id.text = some record) :
    ∃ snapshot, Snapshot.ofRecord record = .ok snapshot ∧ snapshot.id = id := by
  obtain ⟨snapshot, read, _⟩ := (holds.stacked found).ofRecord (holds.fits id)
  obtain ⟨parsed, _⟩ := Snapshot.fields_of_ofRecord read
  rw [holds.filed.row id.text record found, Id.parse_text] at parsed
  exact ⟨snapshot, read, (Except.ok.inj parsed).symm⟩

theorem exists_snapshot (holds : Stacks limit piles store) {record : Record}
    (found : store.read id.text = some record) :
    ∃ snapshot, id.snapshot? store = some snapshot ∧
      snapshot.steps = stackSteps (piles id) ∧
      snapshot.status = (record.text? statusColumn).map Snapshot.readStatus ∧
      Snapshot.readReservation record = .ok snapshot.reservation := by
  obtain ⟨snapshot, read, steps⟩ := (holds.stacked found).ofRecord (holds.fits id)
  obtain ⟨_, status, reservation⟩ := Snapshot.fields_of_ofRecord read
  refine ⟨snapshot, ?_, steps, status, reservation⟩
  rw [Id.snapshot?, found, readable, Option.bind_some, read]
  rfl

theorem snapshot?_of_absent (absent : store.read id.text = none) : id.snapshot? store = none := by
  rw [Id.snapshot?, absent]
  rfl

theorem isSome_snapshot? (holds : Stacks limit piles store) (id : Id) :
    (id.snapshot? store).isSome = (store.read id.text).isSome := by
  cases found : store.read id.text with
  | none =>
      rw [snapshot?_of_absent found]
      rfl
  | some record =>
      obtain ⟨snapshot, reads, _⟩ := holds.exists_snapshot found
      rw [reads]
      rfl

theorem positions_eq (holds : Stacks limit piles store) (id : Id) :
    id.positions store = (stackSteps (piles id)).map Prod.fst := by
  cases found : store.read id.text with
  | none =>
      rw [Id.positions, snapshot?_of_absent found, holds.eq_nil_of_absent found]
      rfl
  | some record =>
      obtain ⟨snapshot, reads, steps, _⟩ := holds.exists_snapshot found
      rw [Id.positions, reads, ← steps]

/-! ## Cells -/

theorem status?_of_cell (holds : Stacks limit piles store) {status : Status}
    (cell : store.cell? id.text statusColumn = some (Bytes.ofText status.text)) :
    id.status? store = some status := by
  obtain ⟨record, found, value⟩ := Option.bind_eq_some_iff.mp cell
  obtain ⟨snapshot, reads, _, read, _⟩ := holds.exists_snapshot found
  rw [Id.status?, reads, Option.bind_some, read, Record.text?, value]
  simp

theorem reservation?_of_cell (holds : Stacks limit piles store) {reservation : Reservation}
    (cell : store.cell? id.text reservationColumn = some (Bytes.ofText reservation.text)) :
    ∃ read, Reservation.parse reservation.text = .ok read ∧
      id.reservation? store = some read := by
  obtain ⟨record, found, value⟩ := Option.bind_eq_some_iff.mp cell
  obtain ⟨snapshot, reads, _, _, stored⟩ := holds.exists_snapshot found
  obtain ⟨read, parsed⟩ := reservation.exists_parse_text
  refine ⟨read, parsed, ?_⟩
  have text : record.text? reservationColumn = some reservation.text := by
    rw [Record.text?, value, Option.bind_some, Bytes.text?_ofText]
  simp only [Snapshot.readReservation, text, parsed, Except.map, Except.ok.injEq] at stored
  rw [Id.reservation?, reads, Option.bind_some, ← stored]

theorem reservation?_of_no_cell (holds : Stacks limit piles store)
    (cell : store.cell? id.text reservationColumn = none) : id.reservation? store = none := by
  cases found : store.read id.text with
  | none =>
      rw [Id.reservation?, snapshot?_of_absent found]
      rfl
  | some record =>
      obtain ⟨snapshot, reads, _, _, stored⟩ := holds.exists_snapshot found
      have text : record.text? reservationColumn = none := by
        rw [Memory.cell?, found, Option.bind_some] at cell
        rw [Record.text?, cell, Option.bind_none]
      simp only [Snapshot.readReservation, text, Except.ok.injEq] at stored
      rw [Id.reservation?, reads, Option.bind_some, ← stored]

end Stacks

end GuardedRows.Tx
