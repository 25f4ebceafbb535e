import GuardedRows.Proofs.Tablet.BatchMoves
import GuardedRows.Proofs.Tablet.Chain
import GuardedRows.Tablet.Rows

/-!
# How tablets are altered

Claims, releases and the mutations of a batch never make a row and never remove one: each asks
for a cell that the row must have, and none of them writes the previous end row. What they
leave in the other cells reads. So a record goes on describing a tablet of the same extent.
-/

set_option autoImplicit false

namespace GuardedRows

theorem Write.foldl_onCell_eq {writes : List Write} {column : Column} {cell : Option Bytes}
    (kept : ∀ write ∈ writes, write.onCell column cell = cell) :
    writes.foldl (Write.onCell column) cell = cell := by
  induction writes with
  | nil => rfl
  | cons write rest ih =>
      rw [List.foldl_cons, kept write List.mem_cons_self]
      exact ih fun other member => kept other (List.mem_cons_of_mem write member)

namespace Tablet

/-! ## Mutations -/

/-- The mutations that the operations on existing tablets send. A claim is an edit. -/
inductive Manages : Mutation → Prop where
  | edit (extent : Extent) (edits : List Edit) : Manages (Edit.mutation extent edits)
  | release (extent : Extent) (operation : OperationId) : Manages (releasing extent operation)

/-- The writes of such mutations. -/
inductive Marks : Write → Prop where
  | availability (availability : Availability) :
      Marks (.put availabilityColumn (Bytes.ofText availability.text))
  | operation (operation : OperationId) :
      Marks (.put operationColumn (Bytes.ofText operation.text))
  | release : Marks (.delete operationColumn)

theorem Edit.marks {edit : Edit} {write : Write} (member : write ∈ edit.writes) :
    Marks write := by
  cases edit with
  | requireNoOperation => cases member
  | requireOperation operation => cases member
  | putAvailability availability =>
      rw [List.mem_singleton.mp member]
      exact .availability availability
  | putOperation operation =>
      rw [List.mem_singleton.mp member]
      exact .operation operation
  | deleteOperation =>
      rw [List.mem_singleton.mp member]
      exact .release

theorem Marks.previousRow {write : Write} (marks : Marks write) (cell : Option Bytes) :
    write.onCell previousRowColumn cell = cell := by
  have availability : availabilityColumn ≠ previousRowColumn := by decide
  have operation : operationColumn ≠ previousRowColumn := by decide
  cases marks with
  | availability => simp [Write.onCell, availability]
  | operation => simp [Write.onCell, operation]
  | release => simp [Write.onCell, operation]

theorem Marks.of_availability {value : Bytes} (marks : Marks (.put availabilityColumn value)) :
    ∃ text availability, value = Bytes.ofText text ∧
      Availability.parse text = .ok availability := by
  generalize target : Write.put availabilityColumn value = write at marks
  cases marks with
  | availability availability =>
      cases target
      exact ⟨availability.text, availability, rfl, availability.parse_text⟩
  | operation => exact absurd (Write.put.inj target).1 (by decide)
  | release => cases target

theorem Marks.of_operation {value : Bytes} (marks : Marks (.put operationColumn value)) :
    ∃ text operation, value = Bytes.ofText text ∧ OperationId.parse text = .ok operation := by
  generalize target : Write.put operationColumn value = write at marks
  cases marks with
  | availability => exact absurd (Write.put.inj target).1 (by decide)
  | operation operation =>
      cases target
      exact ⟨operation.text, operation, rfl, operation.parse_text⟩
  | release => cases target

namespace Manages

variable {mutation : Mutation}

theorem marks (manages : Manages mutation) : ∀ write ∈ mutation.writes, Marks write := by
  intro write member
  cases manages with
  | edit extent edits =>
      obtain ⟨edit, _, member⟩ := List.mem_flatMap.mp member
      exact edit.marks member
  | release extent operation =>
      rw [List.mem_singleton.mp member]
      exact .release

/-- Where there is no row, nothing is altered. -/
theorem not_conditionsHold_none (manages : Manages mutation) :
    mutation.conditionsHold none = false := by
  cases manages <;> rfl

end Manages

/-! ## Records -/

/-- A cell stays, or comes to say something that reads. -/
def Retold {α : Type} (parse : String → Except Malformed α) (before later : Option Bytes) :
    Prop :=
  later = before ∨ ∃ value, Says parse later value

theorem Retold.of_writes {α : Type} {parse : String → Except Malformed α} {writes : List Write}
    {column : Column} (reads : ∀ value, .put column value ∈ writes →
      ∃ text parsed, value = Bytes.ofText text ∧ parse text = .ok parsed)
    (cell : Option Bytes) : Retold parse cell (writes.foldl (Write.onCell column) cell) := by
  rcases Write.foldl_onCell writes column cell with same | gone | ⟨value, member, put⟩
  · exact .inl same
  · exact .inr ⟨none, gone⟩
  · obtain ⟨text, parsed, rfl, told⟩ := reads value member
    exact .inr ⟨some parsed, text, put, told⟩

theorem Retold.exists_read {α : Type} {parse : String → Except Malformed α}
    {before later : Record} {column : Column}
    (retold : Retold parse (before.get? column) (later.get? column)) {value : Option α}
    (read : (match before.text? column with
      | none => .ok none
      | some text => (parse text).map some) = Except.ok value) :
    ∃ value, (match later.text? column with
      | none => .ok none
      | some text => (parse text).map some) = Except.ok value := by
  rcases retold with same | ⟨value, told⟩
  · exact ⟨value, by simpa only [Record.text?, same] using read⟩
  · exact ⟨value, told.read⟩

theorem Says.retold {α : Type} {parse : String → Except Malformed α}
    {before later : Option Bytes} {value : Option α} (told : Says parse before value)
    (retold : Retold parse before later) : ∃ value, Says parse later value := by
  rcases retold with rfl | told
  · exact ⟨value, told⟩
  · exact told

structure Altered (before later : Record) : Prop where
  row : later.row = before.row
  previousEndRow : later.get? previousRowColumn = before.get? previousRowColumn
  availability : Retold Availability.parse (before.get? availabilityColumn)
    (later.get? availabilityColumn)
  operation : Retold OperationId.parse (before.get? operationColumn)
    (later.get? operationColumn)

theorem Altered.refl (record : Record) : Altered record record := ⟨rfl, rfl, .inl rfl, .inl rfl⟩

theorem Manages.altered {mutation : Mutation} {record : Record} (manages : Manages mutation)
    (filed : record.row = mutation.row) (begun : record.get? previousRowColumn ≠ none) :
    ∃ later ∈ mutation.applyTo (some record), Altered record later := by
  have cell : ∀ column, (mutation.written (some record)).get? column =
      mutation.writes.foldl (Write.onCell column) (record.get? column) :=
    mutation.get?_written (some record)
  have previous : (mutation.written (some record)).get? previousRowColumn =
      record.get? previousRowColumn :=
    (cell _).trans
      (Write.foldl_onCell_eq fun write member => (manages.marks write member).previousRow _)
  have kept : (mutation.written (some record)).isEmpty = false := by
    refine Bool.eq_false_iff.mpr fun empty => begun ?_
    rw [← previous]
    exact Record.get?_of_isEmpty empty _
  refine ⟨mutation.written (some record), by simp [Mutation.applyTo, kept], ?_, previous, ?_, ?_⟩
  · refine (mutation.row_written fun other same => ?_).trans filed.symm
    cases Option.mem_some.mp same
    exact filed
  · rw [cell]
    exact .of_writes (fun value member => (manages.marks _ member).of_availability) _
  · rw [cell]
    exact .of_writes (fun value member => (manages.marks _ member).of_operation) _

theorem Altered.describes {before later : Record} {tablet : Metadata}
    (altered : Altered before later) (describes : Describes before tablet) :
    ∃ other : Metadata, other.extent = tablet.extent ∧ Describes later other := by
  obtain ⟨availability, told⟩ := describes.availability.retold altered.availability
  obtain ⟨operation, claimed⟩ := describes.operation.retold altered.operation
  exact ⟨⟨tablet.extent, availability, operation⟩, rfl,
    altered.previousEndRow.trans describes.previousEndRow, told, claimed⟩

/-! ## Records that read -/

theorem Metadata.exists_ofRecord_iff {record : Record} :
    (∃ tablet, Metadata.ofRecord record = .ok tablet) ↔
      (∃ named, parseMetadataRow record.row = .ok named) ∧
      (∃ previous ∈ record.get? previousRowColumn,
        ∃ row, decodePreviousRow previous = .ok row) ∧
      (∃ availability, readAvailability record = .ok availability) ∧
      ∃ operation, readOperation record = .ok operation := by
  constructor
  · rintro ⟨tablet, read⟩
    obtain ⟨row, ⟨previous, stored, decoded⟩, told, claimed⟩ := ofRecord_eq_ok_iff.mp read
    exact ⟨⟨_, row⟩, ⟨previous, stored, _, decoded⟩, ⟨_, told⟩, ⟨_, claimed⟩⟩
  · rintro ⟨⟨⟨table, endRow⟩, row⟩, ⟨previous, stored, previousEndRow, decoded⟩,
      ⟨availability, told⟩, ⟨operation, claimed⟩⟩
    exact ⟨⟨⟨table, endRow, previousEndRow⟩, availability, operation⟩,
      ofRecord_eq_ok_iff.mpr ⟨row, ⟨previous, stored, decoded⟩, told, claimed⟩⟩

theorem Altered.exists_ofRecord {before later : Record} (altered : Altered before later)
    (reads : ∃ tablet, Metadata.ofRecord before = .ok tablet) :
    ∃ tablet, Metadata.ofRecord later = .ok tablet := by
  rw [Metadata.exists_ofRecord_iff] at reads ⊢
  obtain ⟨named, previous, ⟨availability, told⟩, ⟨operation, claimed⟩⟩ := reads
  exact ⟨altered.row ▸ named, altered.previousEndRow ▸ previous,
    altered.availability.exists_read told, altered.operation.exists_read claimed⟩

/-! ## Stores -/

namespace Manages

variable {store : Memory} {mutation : Mutation} {row : String}

theorem read_submit_eq_none (manages : Manages mutation) (absent : store.read row = none) :
    (store.submit mutation).2.read row = none := by
  rw [Memory.read_submit, if_neg ?_]
  · exact absent
  · rintro ⟨rfl, landed⟩
    rw [Memory.lands, absent, manages.not_conditionsHold_none, Bool.and_false] at landed
    cases landed

theorem read_submit (manages : Manages mutation) (filed : store.Filed) {record : Record}
    (found : record ∈ store.read row) (begun : record.get? previousRowColumn ≠ none) :
    ∃ later ∈ (store.submit mutation).2.read row, Altered record later := by
  rw [Memory.read_submit]
  split
  · next landed =>
      obtain ⟨rfl, _⟩ := landed
      rw [Option.mem_def.mp found]
      exact manages.altered (filed.row _ record found) begun
  · exact ⟨record, found, .refl record⟩

end Manages

end Tablet

end GuardedRows
