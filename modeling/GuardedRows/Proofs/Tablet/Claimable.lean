import GuardedRows.Proofs.Store.Settle
import GuardedRows.Proofs.Tablet.PassEffect
import GuardedRows.Proofs.Tablet.Reading
import GuardedRows.Tablet.Rows

/-!
# Tablets that read as unclaimed

A claim and a change of availability ask the same of a tablet: the bytes of its previous end
row, and no bytes at all where an operation would stand. A reading asks less. So a tablet that
reads as unclaimed can be claimed unless its record has bytes that the reading overlooks.
-/

set_option autoImplicit false

namespace GuardedRows.Tablet

variable {store : Memory} {record : Record} {tablet : Metadata} {extent : Extent}

/-- A record has bytes that a reading ignores and that conditions see: an operation that is not
UTF-8, or more behind the byte for no previous end row. -/
def Overlooks (record : Record) : Prop :=
  (∃ value ∈ record.get? operationColumn, Bytes.text? value = none) ∨
    ∃ byte rest, record.get? previousRowColumn = some (0 :: byte :: rest)

/-- Cells in which a claim finds the extent unclaimed. -/
def Open (record : Record) (extent : Extent) : Prop :=
  record.get? previousRowColumn = some (encodePreviousRow extent.previousEndRow) ∧
    record.get? operationColumn = none

theorem lands_claiming_iff (found : store.read extent.metadataRow = some record)
    (told : store.faults = []) (operation : OperationId) :
    store.lands (claiming extent operation) = true ↔ Open record extent := by
  have row : (claiming extent operation).row = extent.metadataRow := rfl
  have asks : (claiming extent operation).conditions =
      [.equals previousRowColumn (encodePreviousRow extent.previousEndRow),
        .absent operationColumn] := rfl
  simp [Memory.lands, told, row, found, asks, Mutation.conditionsHold, Condition.holds_equals,
    Condition.holds_absent, Open]

theorem outcome_claiming (found : store.read extent.metadataRow = some record)
    (told : store.faults = []) (operation : OperationId) :
    Open record extent ∧ (store.submit (claiming extent operation)).1 = .accepted ∨
      ¬ Open record extent ∧ (store.submit (claiming extent operation)).1 = .rejected := by
  rw [← lands_claiming_iff found told operation, Memory.outcome_submit, if_pos told]
  cases store.lands (claiming extent operation) with
  | true => exact .inl ⟨rfl, rfl⟩
  | false => exact .inr ⟨Bool.false_ne_true, rfl⟩

namespace Metadata.ReadFrom

theorem operation_eq_none (reads : ReadFrom record tablet)
    (opened : Open record tablet.extent) : tablet.operation = none := by
  have unclaimed : readOperation record = .ok none :=
    readOperation_eq_none_iff.mpr fun value present => by
      rw [opened.2] at present
      cases present
  exact Except.ok.inj (reads.operation.symm.trans unclaimed)

/-- A tablet that reads as unclaimed is open to a claim unless the reading overlooks bytes. -/
theorem open_iff (reads : ReadFrom record tablet) (unclaimed : tablet.operation = none) :
    Open record tablet.extent ↔ ¬ Overlooks record := by
  obtain ⟨previous, stored, decoded⟩ := reads.previousEndRow
  have unread := readOperation_eq_none_iff.mp (unclaimed ▸ reads.operation)
  rw [Open, Option.mem_def.mp stored, Option.some.injEq, eq_encodePreviousRow_iff decoded,
    Overlooks, not_or]
  constructor
  · rintro ⟨canonical, absent⟩
    constructor
    · rintro ⟨value, present, _⟩
      rw [absent] at present
      cases present
    · rintro ⟨byte, rest, longer⟩
      cases canonical _ (Option.mem_unique stored longer)
  · rintro ⟨readable, ended⟩
    refine ⟨fun rest none => ?_, Option.eq_none_iff_forall_not_mem.mpr fun value present => ?_⟩
    · cases rest with
      | nil => rfl
      | cons byte rest => exact absurd ⟨byte, rest, none ▸ stored⟩ ended
    · exact readable ⟨value, present, unread value present⟩

end Metadata.ReadFrom

/-- A tablet is read, and nothing hides the outcome of a mutation: the claim of what was read is
accepted or rejected, and a change of availability fares as the claim does. That the claim is
accepted just if the tablet reads as unclaimed is true exactly of a tablet that reads as
claimed and of a record without bytes that the reading overlooks. -/
theorem unclaimed_claimable_iff (record : Record) (tablet : Metadata) (store : Memory)
    (operation : OperationId) (change : AvailabilityChange)
    (reads : Metadata.ofRecord record = .ok tablet)
    (stored : store.read record.row = some record) (told : store.faults = []) :
    ∃ outcome later, claim tablet.extent operation store = .ok outcome later ∧
      (outcome = .accepted ∨ outcome = .rejected) ∧
      (store.submit (change.mutation tablet)).1 = outcome ∧
      ((outcome = .accepted ↔ tablet.operation = none) ↔
        tablet.operation ≠ none ∨ ¬ Overlooks record) := by
  have parts := Metadata.ofRecord_eq_ok_iff.mp reads
  have found : store.read tablet.extent.metadataRow = some record := by
    rw [parts.metadataRow_eq]
    exact stored
  have writes : (claiming tablet.extent operation).hasWrites = true := rfl
  have fares : (store.submit (change.mutation tablet)).1 =
      (store.submit (claiming tablet.extent operation)).1 := by
    rw [Memory.outcome_submit, Memory.outcome_submit]
    rfl
  refine ⟨_, _, Mutation.attempt_eq writes, ?_, fares, ?_⟩
  · rcases outcome_claiming found told operation with ⟨_, accepted⟩ | ⟨_, rejected⟩
    · exact .inl accepted
    · exact .inr rejected
  · rcases outcome_claiming found told operation with ⟨opened, outcome⟩ | ⟨closed, outcome⟩
    · have unclaimed := parts.operation_eq_none opened
      simp [outcome, unclaimed, (parts.open_iff unclaimed).mp opened]
    · by_cases unclaimed : tablet.operation = none
      · have overlooked : Overlooks record :=
          Classical.not_not.mp fun none => closed ((parts.open_iff unclaimed).mpr none)
        simp [outcome, unclaimed, overlooked]
      · simp [outcome, unclaimed]

/-- The first of two tablets is unclaimed, and an operation can claim it. -/
theorem unclaimed_claimable_twoTablets :
    (claim ⟨⟨"t"⟩, some "m", none⟩ splitOperation).value? twoTabletStore = some .accepted := by
  obtain ⟨record, found, describes⟩ := holds_twoTablets.recorded
    ⟨⟨⟨"t"⟩, some "m", none⟩, some .unhosted, none⟩ List.mem_cons_self
  have row := built_twoTabletStore.filed.row _ record found
  obtain ⟨outcome, later, claimed, _, _, accepted⟩ := unclaimed_claimable_iff record _
    twoTabletStore splitOperation ⟨⟨"t"⟩, ⟨"space"⟩, .all, .hosted⟩
    (describes.ofRecord row (by decide)) (row ▸ found) rfl
  have shown : ¬ Overlooks record := by
    rintro (⟨value, present, _⟩ | ⟨byte, rest, longer⟩)
    · cases describes.operation.symm.trans (Option.mem_def.mp present)
    · cases describes.previousEndRow.symm.trans longer
  have told : outcome = .accepted := (accepted.mpr (.inr shown)).mpr rfl
  simp only [StoreStep.value?, claimed, told]

/-- A record whose operation is not UTF-8. -/
def illegibleRecord : Record :=
  .ofList (metadataRow ⟨"t"⟩ none) [(previousRowColumn, [0]), (operationColumn, [0xff])]

def illegibleStore : Memory := Memory.empty.setRow illegibleRecord.row (some illegibleRecord)

/-- A tablet reads as unclaimed, and a claim of it is rejected. -/
theorem unclaimed_refused_illegible :
    Metadata.ofRecord illegibleRecord = .ok ⟨⟨⟨"t"⟩, none, none⟩, none, none⟩ ∧
      illegibleStore.read illegibleRecord.row = some illegibleRecord ∧
      illegibleStore.faults = [] ∧
      (claim ⟨⟨"t"⟩, none, none⟩ splitOperation).value? illegibleStore = some .rejected :=
  ⟨by rfl, by decide +kernel⟩

end GuardedRows.Tablet
