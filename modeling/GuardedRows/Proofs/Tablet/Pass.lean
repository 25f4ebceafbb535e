import GuardedRows.Proofs.KeyRange
import GuardedRows.Proofs.Store.Moves
import GuardedRows.Proofs.Store.Submissions
import GuardedRows.Proofs.Tablet.Chain
import GuardedRows.Proofs.Tablet.Immediate

/-!
# One pass of a change of availability

A pass over a table submits one mutation for each tablet that the range covers and that does
not have the target yet. What it reports of a tablet is whether its mutation landed, also
where the store did not say.
-/

set_option autoImplicit false

namespace GuardedRows

namespace Tablet

namespace AvailabilityChange

open StoreStep

variable (change : AvailabilityChange)

/-! ## One tablet -/

def mutation (tablet : Metadata) : Mutation := Edit.mutation tablet.extent change.edits

def changed (landed : Bool) (tablet : Metadata) : Metadata :=
  if landed then { tablet with availability := some change.availability } else tablet

def verdict (landed : Bool) : Outcome := if landed then .accepted else .rejected

@[simp] theorem row_mutation (tablet : Metadata) :
    (change.mutation tablet).row = tablet.extent.metadataRow := rfl

@[simp] theorem extent_changed (landed : Bool) (tablet : Metadata) :
    (change.changed landed tablet).extent = tablet.extent := by
  cases landed <;> rfl

@[simp] theorem operation_changed (landed : Bool) (tablet : Metadata) :
    (change.changed landed tablet).operation = tablet.operation := by
  cases landed <;> rfl

variable {change} {record : Record} {tablet : Metadata} {store : Memory}

theorem conditionsHold_mutation (describes : Describes record tablet) :
    (change.mutation tablet).conditionsHold (some record) = tablet.operation.isNone := by
  have claim : record.contains operationColumn = tablet.operation.isSome :=
    describes.operation.isSome_eq
  simp [mutation, Edit.mutation, edits, Edit.conditions, Edit.sameStart, Condition.equals,
    Mutation.conditionsHold, Condition.holds, describes.previousEndRow, claim]

theorem applyTo_mutation (record : Record) (tablet : Metadata) :
    (change.mutation tablet).applyTo (some record) =
      some (record.put availabilityColumn (Bytes.ofText change.availability.text)) := by
  have kept := record.isEmpty_put availabilityColumn (Bytes.ofText change.availability.text)
  simp [mutation, Edit.mutation, edits, Edit.writes, Mutation.applyTo, Mutation.written,
    Write.applyTo, kept]

theorem describes_put (describes : Describes record tablet) :
    Describes (record.put availabilityColumn (Bytes.ofText change.availability.text))
      { tablet with availability := some change.availability } where
  previousEndRow := by
    rw [Record.get?_put, if_neg (by decide)]
    exact describes.previousEndRow
  availability :=
    ⟨change.availability.text, by rw [Record.get?_put, if_pos rfl],
      Availability.parse_text change.availability⟩
  operation := by
    rw [Record.get?_put, if_neg (by decide)]
    exact describes.operation

theorem keeps_submit (change : AvailabilityChange) (keeps : Keeps store tablet) :
    Keeps (store.submit (change.mutation tablet)).2
      (change.changed (store.lands (change.mutation tablet)) tablet) := by
  obtain ⟨record, found, describes⟩ := keeps
  unfold Keeps
  rw [extent_changed, Memory.read_submit]
  cases store.lands (change.mutation tablet) with
  | false => exact ⟨record, by simpa using found, describes⟩
  | true =>
      refine ⟨_, ?_, describes_put describes⟩
      simp [Option.mem_def.mp found, applyTo_mutation]

theorem keeps_submit_of_ne (change : AvailabilityChange) {other : Metadata}
    (keeps : Keeps store other)
    (elsewhere : tablet.extent.metadataRow ≠ other.extent.metadataRow) :
    Keeps (store.submit (change.mutation tablet)).2 other := by
  unfold Keeps
  rw [Memory.read_submit, if_neg fun same => elsewhere same.1.symm]
  exact keeps

private theorem resolve_eq (keeps : Keeps store tablet) (filed : store.Filed)
    (named : separator ∉ tablet.extent.table.text.toList)
    (undone : change.isDone tablet = false) :
    Batch.resolve tablet.extent change.isDone
        (.ok (store.submit (change.mutation tablet)).1)
        (store.submit (change.mutation tablet)).2 =
      .ok (verdict (store.lands (change.mutation tablet)))
        (store.submit (change.mutation tablet)).2 := by
  have found := (keeps_submit change keeps).find_eq (filed.submit (change.mutation tablet))
    (by rw [extent_changed]; exact named)
  rw [extent_changed] at found
  rw [Memory.outcome_submit]
  by_cases told : store.faults = []
  · rw [if_pos told]
    cases store.lands (change.mutation tablet) <;> rfl
  · simp only [if_neg told, Batch.resolve, bind, EStateM.bind, found, Option.any_some]
    cases store.lands (change.mutation tablet) with
    | true => simp [changed, isDone, verdict, pure, EStateM.pure]
    | false => simp [changed, undone, verdict, pure, EStateM.pure]

private theorem note_eq_of_find {extent : Extent} {current : Option Metadata}
    (found : find extent store = .ok current store) (outcome : Outcome) :
    note extent outcome store = (outcome, store) := by
  cases outcome <;> simp [note, StoreStep.outcome, found]

theorem submit_eq (reports : List Outcome) {submitted : List Extent}
    (fresh : tablet.extent ∉ submitted) (keeps : Keeps store tablet) (filed : store.Filed)
    (named : separator ∉ tablet.extent.table.text.toList)
    (undone : change.isDone tablet = false) :
    Batch.submit note false tablet.extent change.edits change.isDone
        ({ store, submitted, reports } : Batch Memory Outcome) =
      .ok () {
        store := (store.submit (change.mutation tablet)).2
        submitted := submitted ++ [tablet.extent]
        reports := reports ++ [verdict (store.lands (change.mutation tablet))] } := by
  have later := (keeps_submit change keeps).find_eq
    (filed.submit (change.mutation tablet)) (by rw [extent_changed]; exact named)
  rw [extent_changed] at later
  have writes : (Edit.mutation tablet.extent change.edits).hasWrites = true := rfl
  have unseen : submitted.contains tablet.extent = false := by simpa using fresh
  unfold Batch.submit
  simp only [writes, Bool.not_true, Bool.false_eq_true, ↓reduceIte, get_bind_apply, unseen,
    modify_bind_apply]
  exact Batch.processReady_of_ok rfl rfl (resolve_eq keeps filed named undone)
    (note_eq_of_find later _)

/-! ## A pass -/

variable (change)

/-- Whether a pass submits a mutation for a tablet of its table. -/
def submits (tablet : Metadata) : Bool :=
  !change.beginsPastEnd tablet && !change.isDone tablet

def due (tablets : List Metadata) : List Metadata :=
  tablets.filter fun tablet => tablet.reaches change.scanStart && change.submits tablet

def sent (tablets : List Metadata) : List Mutation := (change.due tablets).map change.mutation

variable {change} {tablets : List Metadata}

/-- What holds of the tablets that a pass still has to visit. -/
private structure Ahead (change : AvailabilityChange) (store : Memory) (submitted : List Extent)
    (tablets : List Metadata) : Prop where
  filed : store.Filed
  reached : ∀ tablet ∈ tablets, change.endsBeforeScan tablet = none
  later : tablets.Pairwise fun left right =>
    change.beginsPastEnd left = true → change.beginsPastEnd right = true
  distinct : tablets.Pairwise fun left right =>
    left.extent.metadataRow ≠ right.extent.metadataRow
  fresh : ∀ tablet ∈ tablets, tablet.extent ∉ submitted
  keeps : ∀ tablet ∈ tablets, Keeps store tablet
  named : ∀ tablet ∈ tablets, separator ∉ tablet.extent.table.text.toList

namespace Ahead

variable {submitted : List Extent} {rest : List Metadata}

private theorem skip (ahead : Ahead change store submitted (tablet :: rest)) :
    Ahead change store submitted rest where
  filed := ahead.filed
  reached other member := ahead.reached other (List.mem_cons_of_mem tablet member)
  later := (List.pairwise_cons.mp ahead.later).2
  distinct := (List.pairwise_cons.mp ahead.distinct).2
  fresh other member := ahead.fresh other (List.mem_cons_of_mem tablet member)
  keeps other member := ahead.keeps other (List.mem_cons_of_mem tablet member)
  named other member := ahead.named other (List.mem_cons_of_mem tablet member)

private theorem submit (ahead : Ahead change store submitted (tablet :: rest)) :
    Ahead change (store.submit (change.mutation tablet)).2 (submitted ++ [tablet.extent])
      rest := by
  have elsewhere := (List.pairwise_cons.mp ahead.distinct).1
  refine { ahead.skip with filed := ahead.filed.submit _, fresh := ?_, keeps := ?_ }
  · intro other member known
    rcases List.mem_append.mp known with known | same
    · exact ahead.skip.fresh other member known
    · refine elsewhere other member ?_
      simp [Extent.metadataRow, List.mem_singleton.mp same]
  · intro other member
    exact keeps_submit_of_ne change (ahead.skip.keeps other member) (elsewhere other member)

private theorem submits_eq_nil (ahead : Ahead change store submitted (tablet :: rest))
    (past : change.beginsPastEnd tablet = true) :
    (tablet :: rest).filter change.submits = [] := by
  refine List.filter_eq_nil_iff.mpr fun other member => ?_
  rcases List.mem_cons.mp member with rfl | member
  · simp [submits, past]
  · have behind := (List.pairwise_cons.mp ahead.later).1 other member past
    simp [submits, behind]

end Ahead

private theorem visit_eq {submitted : List Extent} (reports : List Outcome)
    (ahead : Ahead change store submitted tablets) :
    change.visit (tablets.map .ok) ({ store, submitted, reports } : Batch Memory Outcome) =
      .ok () {
        store := store.submitAll ((tablets.filter change.submits).map change.mutation)
        submitted := submitted ++ (tablets.filter change.submits).map Metadata.extent
        reports := reports ++
          (store.verdicts ((tablets.filter change.submits).map change.mutation)).map
            fun entry => verdict entry.2 } := by
  induction tablets generalizing store submitted reports with
  | nil => simp [visit, Memory.submitAll, Memory.verdicts]
  | cons tablet rest ih =>
      simp only [List.map_cons, visit, ahead.reached tablet List.mem_cons_self]
      cases past : change.beginsPastEnd tablet with
      | true => simp [ahead.submits_eq_nil past, Memory.submitAll, Memory.verdicts]
      | false =>
          cases done : change.isDone tablet with
          | true => simpa [submits, past, done] using ih reports ahead.skip
          | false =>
              have submission := submit_eq reports (ahead.fresh tablet List.mem_cons_self)
                (ahead.keeps tablet List.mem_cons_self) ahead.filed
                (ahead.named tablet List.mem_cons_self) done
              have visited := ih
                (reports ++ [verdict (store.lands (change.mutation tablet))]) ahead.submit
              simp only [Bool.false_eq_true, ↓reduceIte]
              rw [bind_of_ok submission, visited]
              simp [submits, past, done, Memory.submitAll, Memory.verdicts]

private theorem beginsPastEnd_mono {left right : Metadata}
    (later : ∀ begin ∈ left.extent.previousEndRow,
      ∃ other ∈ right.extent.previousEndRow, begin ≤ other)
    (past : change.beginsPastEnd left = true) : change.beginsPastEnd right = true := by
  simp only [beginsPastEnd, Option.any_eq_true] at past ⊢
  obtain ⟨begin, begins, past⟩ := past
  obtain ⟨other, found, order⟩ := later begin begins
  refine ⟨other, found, RowRange.afterEnd_mono ?_ past⟩
  rw [Bool.eq_false_iff, ne_eq, Key.before_followingRow_iff, String.not_le]
  exact Std.lt_of_le_of_lt order (Text.lt_push_zero other)

theorem endsBeforeScan_eq_none_iff :
    change.endsBeforeScan tablet = none ↔ tablet.reaches change.scanStart = true := by
  rw [Metadata.reaches_iff]
  unfold endsBeforeScan
  cases change.scanStart with
  | none => simp
  | some row =>
      cases tablet.extent.endRow with
      | none => simp
      | some endRow =>
          simp only [Option.mem_some_iff, forall_eq', ite_eq_right_iff, reduceCtorEq, imp_false,
            String.not_lt]

/-- A pass submits what is due and reports for each mutation whether it landed. -/
theorem pass_eq (holds : Holds store change.table tablets) (filed : store.Filed) :
    change.pass store =
      .ok ((store.verdicts (change.sent tablets)).map fun entry => verdict entry.2)
        (store.submitAll (change.sent tablets)) := by
  have members : ∀ tablet ∈ tablets.filter (·.reaches change.scanStart), tablet ∈ tablets :=
    fun tablet member => (List.mem_filter.mp member).1
  have ahead : Ahead change store [] (tablets.filter (·.reaches change.scanStart)) := {
    filed
    reached := fun tablet member => endsBeforeScan_eq_none_iff.mpr (List.mem_filter.mp member).2
    later := (holds.chain.begins_later.filter _).imp beginsPastEnd_mono
    distinct := (holds.chain.rows_ascend.filter _).imp Std.ne_of_lt
    fresh := fun _ _ => List.not_mem_nil
    keeps := fun tablet member => holds.recorded tablet (members tablet member)
    named := fun tablet member => holds.named_of_mem (members tablet member) }
  have visited := visit_eq [] ahead
  have submitted : (tablets.filter (·.reaches change.scanStart)).filter change.submits =
      change.due tablets := by
    simp only [due, List.filter_filter, Bool.and_comm]
  rw [submitted] at visited
  unfold pass
  rw [bind_of_ok (holds.overlapping_eq filed change.scanStart)]
  simp only [Batch.run, visited]
  rw [Batch.Idle.close ⟨rfl, rfl, rfl⟩]
  simp [sent]

/-- On an online table the answer is zero exactly if every mutation landed. -/
theorem isReady_eq {catalog : Catalog} (online : catalog.tableState change.table = .online)
    (holds : Holds store change.table tablets) (filed : store.Filed) (config : Config)
    (elapsed : Duration) :
    change.isReady catalog config elapsed store =
      .ok (if (store.verdicts (change.sent tablets)).all Prod.snd then 0
        else config.waitHint elapsed) (store.submitAll (change.sent tablets)) := by
  have accepted : (fun outcome => decide (outcome = Outcome.accepted)) ∘
      (fun entry : Mutation × Bool => verdict entry.2) = Prod.snd := by
    funext ⟨_, landed⟩
    cases landed <;> rfl
  unfold isReady
  simp only [online, ne_eq, not_true_eq_false, ↓reduceIte]
  rw [bind_of_ok (pass_eq holds filed)]
  simp only [List.all_map, accepted, pure_apply]

end AvailabilityChange

end Tablet

end GuardedRows
