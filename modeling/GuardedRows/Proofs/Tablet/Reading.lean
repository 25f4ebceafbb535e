import GuardedRows.Proofs.Store.Moves
import GuardedRows.Proofs.Tablet.MetadataRow
import GuardedRows.Tablet.Metadata

/-!
# Records that read

A record reads if each of its parts does, and says what they say. The reading is more lenient
than what is written asks for: it ignores what follows the byte for no previous end row, and an
operation that is not UTF-8.
-/

set_option autoImplicit false

namespace GuardedRows.Tablet

open StoreStep

variable {record : Record} {tablet : Metadata}

namespace Metadata

/-- The parts of a record say what a tablet is. -/
structure ReadFrom (record : Record) (tablet : Metadata) : Prop where
  row : parseMetadataRow record.row = .ok (tablet.extent.table, tablet.extent.endRow)
  previousEndRow : ∃ previous ∈ record.get? previousRowColumn,
    decodePreviousRow previous = .ok tablet.extent.previousEndRow
  availability : readAvailability record = .ok tablet.availability
  operation : readOperation record = .ok tablet.operation

theorem ofRecord_eq_ok_iff : ofRecord record = .ok tablet ↔ ReadFrom record tablet := by
  constructor
  · intro read
    unfold ofRecord at read
    obtain ⟨⟨table, endRow⟩, row, read⟩ := exists_of_bind read
    cases stored : record.get? previousRowColumn with
    | none =>
        rw [stored] at read
        cases read
    | some previous =>
        rw [stored] at read
        obtain ⟨_, ⟨⟩, read⟩ := exists_of_bind read
        obtain ⟨previousEndRow, decoded, read⟩ := exists_of_bind read
        obtain ⟨availability, told, read⟩ := exists_of_bind read
        obtain ⟨operation, claimed, read⟩ := exists_of_bind read
        cases read
        exact ⟨row, ⟨previous, stored, decoded⟩, told, claimed⟩
  · rintro ⟨row, ⟨previous, stored, decoded⟩, told, claimed⟩
    unfold ofRecord
    simp only [row, Option.mem_def.mp stored, decoded, told, claimed, bind, Except.bind]
    rfl

theorem ReadFrom.metadataRow_eq (reads : ReadFrom record tablet) :
    tablet.extent.metadataRow = record.row :=
  (parseMetadataRow_eq_ok_iff.mp reads.row).2.symm

/-- A record without an operation that reads may still have bytes in the operation's place. -/
theorem readOperation_eq_none_iff :
    readOperation record = .ok none ↔
      ∀ value ∈ record.get? operationColumn, Bytes.text? value = none := by
  have unread : record.text? operationColumn = none ↔
      ∀ value ∈ record.get? operationColumn, Bytes.text? value = none := by
    simp [Record.text?, Option.bind_eq_none_iff]
  rw [← unread]
  unfold readOperation
  cases record.text? operationColumn with
  | none => simp
  | some text => cases parsed : OperationId.parse text <;> simp [parsed, Except.map]

end Metadata

/-- Bytes that read as a previous end row are those written for it, unless more of them follow
the byte for none. -/
theorem eq_encodePreviousRow_iff {bytes : Bytes} {row : Option String}
    (decoded : decodePreviousRow bytes = .ok row) :
    bytes = encodePreviousRow row ↔ ∀ rest, bytes = 0 :: rest → rest = [] := by
  unfold decodePreviousRow at decoded
  split at decoded
  · next rest =>
      cases decoded
      simp [encodePreviousRow]
  · next rest =>
      cases read : Bytes.text? rest with
      | none => simp [read] at decoded
      | some text =>
          simp only [read, Except.ok.injEq] at decoded
          subst decoded
          simp [encodePreviousRow, Bytes.eq_ofText_of_text? read]
  · cases decoded

end GuardedRows.Tablet
