import GuardedRows.Proofs.Tx.Run
import GuardedRows.Proofs.Tx.TypedView

/-!
# Recorded steps

A step is stored only where none is stored, whatever else the same mutation removes. So the
bytes at a position stay as they are until a mutation removes them, and other bytes take their
place only after there was a moment with none.
-/

set_option autoImplicit false

namespace GuardedRows.Tx

open StoreStep

/-- What a transaction has in the column of a position. A snapshot shows the same if every step
is in the column of its position. -/
def Id.recorded? (id : Id) (store : Memory) (position : UInt32) : Option Bytes :=
  store.cell? id.text (stepColumn position)

/-! ## Ways to send edits -/

/-- To take whatever outcome the store reports, to insist on being accepted or to settle. -/
inductive Sending where
  | attempt
  | enforce
  | settle (verifier : Option Snapshot → Bool)

namespace Sending

def after (sending : Sending) (id : Id) (edits : List Edit) (store : Memory) : Memory :=
  match sending with
  | .attempt => (Edit.attempt id edits).after store
  | .enforce => (Edit.enforce id edits).after store
  | .settle verifier => (Edit.settle id edits verifier).after store

/-- However edits are sent, the store takes one mutation, or none if there is nothing to
write. -/
theorem after_eq (sending : Sending) (id : Id) (edits : List Edit) (store : Memory) :
    sending.after id edits store =
      if (Edit.mutation id edits).hasWrites then (store.submit (Edit.mutation id edits)).2
      else store := by
  rw [← Mutation.after_attempt_eq]
  cases sending with
  | attempt => rfl
  | enforce =>
      refine after_bind_of_still (fun outcome later => ?_) store
      cases outcome <;> rfl
  | settle verifier =>
      refine (after_bind_of_still (fun settled later => rfl) store).trans ?_
      refine after_bind_of_still (fun outcome later => ?_) store
      cases outcome <;> rfl

end Sending

/-! ## One mutation -/

namespace Edit

variable {store : Memory} {id other : Id} {edits : List Edit} {position : UInt32} {step : Bytes}

theorem eq_putStep_of_onStep {edit : Edit} (puts : edit.onStep position = some (some step)) :
    edit = .putStep position step := by
  cases edit with
  | putStep written stored =>
      by_cases same : written = position
      · subst same
        rw [onStep, if_pos rfl] at puts
        cases puts
        rfl
      · rw [onStep, if_neg same] at puts
        cases puts
  | deleteStep deleted =>
      rw [onStep] at puts
      split at puts <;> cases puts
  | _ => cases puts

/-- A mutation that puts a step where there is one does not land, even if it removes that one
too: its conditions are asked of the row as it is before all writes. -/
theorem missed_of_recorded (member : .putStep position step ∈ edits)
    (recorded : store.cell? id.text (stepColumn position) ≠ none) :
    store.lands (mutation id edits) = false := by
  cases lands : store.lands (mutation id edits) with
  | false => rfl
  | true =>
      have asked : .absent (stepColumn position) ∈ (mutation id edits).conditions :=
        List.mem_flatMap.mpr ⟨_, member, List.mem_singleton_self _⟩
      exact absurd (Condition.holds_absent.mp (Memory.holds_of_lands lands asked)) recorded

theorem recorded?_submit (store : Memory) (id other : Id) (edits : List Edit)
    (position : UInt32) :
    other.recorded? (store.submit (mutation id edits)).2 position =
      if other.text = id.text ∧ store.lands (mutation id edits) = true then
        lastly (onStep position) edits (other.recorded? store position)
      else other.recorded? store position := by
  rw [Id.recorded?, cell?_submit, onStep_eq_onField, Id.recorded?]
  congr 1
  exact foldl_onCell_flatMap (.step position) _ edits

theorem recorded_of_submit (recorded : other.recorded? store position = some step) (id : Id)
    (edits : List Edit) :
    other.recorded? (store.submit (mutation id edits)).2 position = some step ∨
      other.recorded? (store.submit (mutation id edits)).2 position = none := by
  rw [recorded?_submit, recorded]
  split
  · next landed =>
      obtain ⟨own, lands⟩ := landed
      rcases lastly_cases (onStep position) edits (some step) with kept | ⟨edit, member, left⟩
      · exact .inl kept
      · cases leaves : lastly (onStep position) edits (some step) with
        | none => exact .inr rfl
        | some put =>
            rw [leaves] at left
            have puts := eq_putStep_of_onStep left
            subst puts
            have occupied : store.cell? id.text (stepColumn position) ≠ none :=
              own ▸ Option.ne_none_iff_exists'.mpr ⟨step, recorded⟩
            cases (missed_of_recorded member occupied).symm.trans lands
  · exact .inl rfl

end Edit

/-! ## Mutations in sequence -/

/-- What can become of a store: a fault is laid in wait, or edits of a transaction are sent. -/
inductive Editing where
  | fault (fault : Fault)
  | send (id : Id) (edits : List Edit) (sending : Sending)

namespace Editing

def after : Editing → Memory → Memory
  | .fault laid, store => store.addFault laid
  | .send id edits sending, store => sending.after id edits store

def run (store : Memory) (course : List Editing) : Memory :=
  course.foldl (fun store editing => editing.after store) store

variable {store : Memory} {id : Id} {position : UInt32}

theorem recorded_after {step : Bytes} (recorded : id.recorded? store position = some step)
    (editing : Editing) :
    id.recorded? (editing.after store) position = some step ∨
      id.recorded? (editing.after store) position = none := by
  cases editing with
  | fault laid => exact .inl recorded
  | send other edits sending =>
      rw [after, Sending.after_eq]
      split
      · exact Edit.recorded_of_submit recorded other edits
      · exact .inl recorded

theorem rows_of_putStep {edits : List Edit} {step : Bytes}
    (member : .putStep position step ∈ edits) (recorded : id.recorded? store position ≠ none)
    (sending : Sending) : ((send id edits sending).after store).rows = store.rows := by
  rw [after, Sending.after_eq]
  split
  · exact Memory.rows_of_missed (Edit.missed_of_recorded member recorded)
  · rfl

/-- Bytes come in the place of others only by way of none. -/
theorem recorded_run {course : List Editing} {first last : Bytes}
    (before : id.recorded? store position = some first)
    (after : id.recorded? (run store course) position = some last) :
    first = last ∨
      ∃ earlier, earlier <+: course ∧ id.recorded? (run store earlier) position = none := by
  induction course generalizing store with
  | nil => exact .inl (Option.some.inj (before.symm.trans after))
  | cons editing rest ih =>
      rcases recorded_after before editing with kept | removed
      · rcases ih kept after with same | ⟨earlier, among, none⟩
        · exact .inl same
        · exact .inr ⟨editing :: earlier, List.prefix_cons_inj editing |>.mpr among, none⟩
      · exact .inr ⟨[editing], ⟨rest, rfl⟩, removed⟩

/-- Recorded steps do not change. From any store and after any mutations, whatever their edits
and however they meet faults: the next mutation leaves the bytes at a position as they are or
removes them; one that puts a step at a position with bytes changes no row; and bytes that are
not those of before were put after a moment when there were none. -/
theorem recorded_steps_immutable (store : Memory) (course : List Editing) (id : Id)
    (position : UInt32) :
    let before := run store course
    (∀ editing step, id.recorded? before position = some step →
      id.recorded? (after editing before) position = some step ∨
        id.recorded? (after editing before) position = none) ∧
    (∀ edits step sending, .putStep position step ∈ edits →
      id.recorded? before position ≠ none →
        (after (.send id edits sending) before).rows = before.rows) ∧
    ∀ first last, id.recorded? store position = some first →
      id.recorded? before position = some last → first ≠ last →
        ∃ earlier, earlier <+: course ∧ id.recorded? (run store earlier) position = none := by
  refine ⟨fun editing step recorded => recorded_after recorded editing,
    fun edits step sending member recorded => rows_of_putStep member recorded sending, ?_⟩
  intro first last before after different
  exact (recorded_run before after).resolve_left different

/-- A step is recorded unseen. -/
def recordedOnce : Memory :=
  run .empty [.fault .applied, .send holder.transaction [.putStatus .new, .putStep 3 [8]] .attempt]

/-- It is removed, and another one is recorded in its place. -/
def replacement : List Editing :=
  [.send holder.transaction [.deleteStep 3] .attempt,
    .send holder.transaction [.putStep 3 [9]] .enforce]

/-- The step at the position could only be replaced after it was removed: to remove it, and even
the record, and to put another one at once changes nothing. -/
theorem recorded_steps_immutable_replacement :
    (∃ earlier, earlier <+: replacement ∧
      holder.transaction.recorded? (run recordedOnce earlier) 3 = none) ∧
    (after (.send holder.transaction [.deleteStep 3, .delete, .putStep 3 [10]] .enforce)
      (run recordedOnce replacement)).rows = (run recordedOnce replacement).rows ∧
    (holder.transaction.recorded? (after (.send holder.transaction [.delete] .attempt)
        (run recordedOnce replacement)) 3 = some [9] ∨
      holder.transaction.recorded? (after (.send holder.transaction [.delete] .attempt)
        (run recordedOnce replacement)) 3 = none) := by
  have first : holder.transaction.recorded? recordedOnce 3 = some [8] := by decide +kernel
  have last : holder.transaction.recorded? (run recordedOnce replacement) 3 = some [9] := by
    decide +kernel
  obtain ⟨next, puts, between⟩ :=
    recorded_steps_immutable recordedOnce replacement holder.transaction 3
  refine ⟨between [8] [9] first last (by decide), ?_, next _ [9] last⟩
  exact puts _ [10] .enforce (by simp) (last ▸ Option.some_ne_none [9])

end Editing

end GuardedRows.Tx
