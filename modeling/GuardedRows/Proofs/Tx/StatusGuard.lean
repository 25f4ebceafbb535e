import GuardedRows.Proofs.Tx.Reading
import GuardedRows.Proofs.Tx.Run

/-!
# Guards and readings of a status

A guard compares the bytes of a status with the names it lists, and a reading makes a status of
them. The two agree on every record whose bytes name a status. A text that names none reads as
unknown and passes no guard; bytes that are not UTF-8 read as no status and are there all the
same.
-/

set_option autoImplicit false

namespace GuardedRows.Tx

/-! ## What the bytes are -/

/-- The bytes of the status are a text that names no status. -/
def NamelessStatus (record : Record) : Prop :=
  ∃ text, record.get? statusColumn = some (Bytes.ofText text) ∧
    ∀ status : Status, status.text ≠ text

/-- The bytes of the status are no text. -/
def IllegibleStatus (record : Record) : Prop :=
  ∃ bytes, record.get? statusColumn = some bytes ∧ bytes.text? = none

/-- What stands where a status would. -/
inductive StatusCell (record : Record) : Prop where
  | absent : record.get? statusColumn = none → StatusCell record
  | named (status : Status) :
      record.get? statusColumn = some (Bytes.ofText status.text) → StatusCell record
  | nameless : NamelessStatus record → StatusCell record
  | illegible : IllegibleStatus record → StatusCell record

theorem statusCell (record : Record) : StatusCell record := by
  cases found : record.get? statusColumn with
  | none => exact .absent found
  | some bytes =>
      cases decoded : bytes.text? with
      | none => exact .illegible ⟨bytes, found, decoded⟩
      | some text =>
          obtain rfl := Bytes.eq_ofText_of_text? decoded
          by_cases named : ∃ status : Status, status.text = text
          · obtain ⟨status, rfl⟩ := named
            exact .named status found
          · exact .nameless ⟨text, found, fun status same => named ⟨status, same⟩⟩

theorem Status.text_injective {left right : Status} (same : left.text = right.text) :
    left = right := by
  have read := congrArg Status.parse same
  simpa using read

theorem Snapshot.readStatus_of_nameless {text : String}
    (nameless : ∀ status : Status, status.text ≠ text) : readStatus text = .unknown := by
  have unnamed : Status.all.find? (fun status => decide (status.text = text)) = none :=
    List.find?_eq_none.mpr fun status _ => by simpa using nameless status
  unfold readStatus Status.parse
  rw [unnamed]

/-! ## What a guard asks -/

/-- Whether a row is as an edit asks. -/
def Edit.passes (current : Option Record) (edit : Edit) : Bool :=
  edit.conditions.all (·.holds current)

theorem Edit.conditionsHold_mutation (id : Id) (edits : List Edit) (current : Option Record) :
    (mutation id edits).conditionsHold current = edits.all (passes current) := by
  unfold mutation Mutation.conditionsHold
  exact List.all_flatMap

/-- The status that was read is one of these, and there is none if none is listed. -/
def Snapshot.StatusAmong (snapshot : Snapshot) : List Status → Prop
  | [] => snapshot.status = none
  | statuses => ∃ status ∈ statuses, snapshot.status = some status

section Reads

variable {record : Record} {snapshot : Snapshot} {statuses : List Status}

theorem Edit.passes_requireStatus_nil :
    passes (some record) (.requireStatus []) = true ↔ record.get? statusColumn = none := by
  simp [passes, conditions, Condition.holds_absent]

theorem Edit.passes_requireStatus (listed : statuses ≠ []) :
    passes (some record) (.requireStatus statuses) = true ↔
      ∃ status ∈ statuses, record.get? statusColumn = some (Bytes.ofText status.text) := by
  cases statuses with
  | nil => exact absurd rfl listed
  | cons status rest =>
      simp only [passes, conditions, List.all_cons, List.all_nil, Bool.and_true, Condition.holds,
        Option.bind_some, Option.any_eq_true, List.contains_iff_mem, List.mem_map]
      constructor
      · rintro ⟨_, found, asked, member, rfl⟩
        exact ⟨asked, member, found⟩
      · rintro ⟨asked, member, found⟩
        exact ⟨_, found, asked, member, rfl⟩

theorem Snapshot.statusAmong_iff (listed : statuses ≠ []) :
    snapshot.StatusAmong statuses ↔ ∃ status ∈ statuses, snapshot.status = some status := by
  cases statuses with
  | nil => exact absurd rfl listed
  | cons status rest => exact Iff.rfl

/-! ## Where they agree -/

/-- Asking for no status agrees with reading none unless there are bytes that are no text. -/
theorem passes_nil_agrees_iff (reads : Snapshot.ofRecord record = .ok snapshot) :
    (Edit.passes (some record) (.requireStatus []) = true ↔ snapshot.StatusAmong []) ↔
      ¬IllegibleStatus record := by
  obtain ⟨_, read, _⟩ := Snapshot.fields_of_ofRecord reads
  have among : snapshot.StatusAmong [] ↔ record.text? statusColumn = none := by
    unfold Snapshot.StatusAmong
    rw [read, Option.map_eq_none_iff]
  rw [Edit.passes_requireStatus_nil, among, Record.text?]
  constructor
  · rintro agrees ⟨bytes, found, illegible⟩
    have absent := agrees.mpr (by rw [found]; exact illegible)
    cases found.symm.trans absent
  · intro legible
    constructor
    · intro absent
      rw [absent]
      rfl
    · intro unread
      cases found : record.get? statusColumn with
      | none => rfl
      | some bytes =>
          rw [found] at unread
          exact absurd ⟨bytes, found, unread⟩ legible

/-- Asking for one of some statuses agrees with reading one of them, unless a text without a
name stands there and the unknown status is among them. -/
theorem passes_agrees_iff (reads : Snapshot.ofRecord record = .ok snapshot)
    (listed : statuses ≠ []) :
    (Edit.passes (some record) (.requireStatus statuses) = true ↔
        snapshot.StatusAmong statuses) ↔
      (.unknown ∈ statuses → ¬NamelessStatus record) := by
  obtain ⟨_, read, _⟩ := Snapshot.fields_of_ofRecord reads
  rw [Edit.passes_requireStatus listed, Snapshot.statusAmong_iff listed, read, Record.text?]
  cases statusCell record with
  | absent found =>
      have named : ¬NamelessStatus record := by
        rintro ⟨text, stored, _⟩
        cases found.symm.trans stored
      simp [found, named]
  | named status found =>
      have named : ¬NamelessStatus record := by
        rintro ⟨text, stored, nameless⟩
        exact nameless status (Bytes.ofText_injective (Option.some.inj (found.symm.trans stored)))
      have same : ∀ other : Status,
          Bytes.ofText status.text = Bytes.ofText other.text ↔ status = other :=
        fun other => ⟨fun bytes => Status.text_injective (Bytes.ofText_injective bytes),
          fun equal => equal ▸ rfl⟩
      simp [found, named, same]
  | nameless unnamed =>
      obtain ⟨text, found, nameless⟩ := id unnamed
      have other : ∀ status : Status, Bytes.ofText text ≠ Bytes.ofText status.text :=
        fun status same => nameless status (Bytes.ofText_injective same).symm
      simp [found, unnamed, other, Snapshot.readStatus_of_nameless nameless]
  | illegible unread =>
      obtain ⟨bytes, found, illegible⟩ := unread
      have unnamed : ∀ text, bytes ≠ Bytes.ofText text := by
        rintro text rfl
        rw [Bytes.text?_ofText] at illegible
        cases illegible
      have named : ¬NamelessStatus record := by
        rintro ⟨text, stored, _⟩
        exact unnamed text (Option.some.inj (found.symm.trans stored))
      simp [found, illegible, unnamed, named]

end Reads

/-- A mutation is let through if every one of its edits passes. That the guard on the status
passes just if the status that is read is one of those listed, or none is read and none is
listed, is true exactly where no bytes that are no text are asked to be absent, and no text
without a name is asked to be unknown. -/
theorem status_guard_agrees_iff (record : Record) (snapshot : Snapshot)
    (reads : Snapshot.ofRecord record = .ok snapshot) (statuses : List Status) :
    (∀ id edits, (Edit.mutation id edits).conditionsHold (some record) =
      edits.all (Edit.passes (some record))) ∧
    ((Edit.passes (some record) (.requireStatus statuses) = true ↔
        snapshot.StatusAmong statuses) ↔
      (statuses = [] → ¬IllegibleStatus record) ∧
        (.unknown ∈ statuses → ¬NamelessStatus record)) := by
  refine ⟨fun id edits => Edit.conditionsHold_mutation id edits _, ?_⟩
  by_cases listed : statuses = []
  · subst listed
    rw [passes_nil_agrees_iff reads]
    simp
  · rw [passes_agrees_iff reads listed]
    simp [listed]

/-- A transaction whose status has no name. -/
def pausedRecord : Record :=
  .ofList (Id.text ⟨.user, uuidOf 1⟩) [(statusColumn, Bytes.ofText "PAUSED")]

def pausedSnapshot : Snapshot :=
  ⟨⟨.user, uuidOf 1⟩, some .unknown, none, none, none, none, none, none, []⟩

/-- The guard on a named status refuses it, as it should. -/
theorem status_guard_agrees_paused :
    ¬ Edit.passes (some pausedRecord) (.requireStatus [.new]) = true := by
  have agrees := (status_guard_agrees_iff pausedRecord pausedSnapshot (by rfl) [.new]).2.mpr
    ⟨nofun, fun member => absurd member (by decide)⟩
  intro passes
  obtain ⟨status, member, read⟩ := agrees.mp passes
  cases Option.some.inj read
  exact absurd member (by decide)

/-- A transaction whose status is not UTF-8. -/
def illegibleStatusRecord : Record :=
  .ofList (Id.text ⟨.user, uuidOf 1⟩) [(statusColumn, [0xff])]

/-- One transaction reads as unknown and unreserved, and passes neither for one of unknown
status nor for one that can be reserved. Another reads as one without a status and does not
pass for one. -/
theorem status_guard_differs_paused :
    (Snapshot.ofRecord pausedRecord = .ok pausedSnapshot ∧
      pausedSnapshot.StatusAmong [.unknown] ∧
      Edit.passes (some pausedRecord) (.requireStatus [.unknown]) = false ∧
      (tryReserve ⟨.user, uuidOf 1⟩ ⟨"p", "n", 1⟩ (uuidOf 2)).value?
        (Memory.empty.setRow pausedRecord.row (some pausedRecord)) = some none) ∧
    Snapshot.ofRecord illegibleStatusRecord = .ok { pausedSnapshot with status := none } ∧
      { pausedSnapshot with status := none }.StatusAmong [] ∧
      Edit.passes (some illegibleStatusRecord) (.requireStatus []) = false :=
  ⟨⟨by rfl, ⟨.unknown, by decide, rfl⟩, by decide +kernel, by decide +kernel⟩,
    by rfl, rfl, by decide +kernel⟩

end GuardedRows.Tx
