import GuardedRows.Proofs.Store.Transparency
import GuardedRows.Proofs.Tx.Run
import GuardedRows.Proofs.Tx.StackOperations

/-!
# Records that do not read

A verifier is shown nothing where there is no record and where there is one that does not read.
So a removal that was hidden and did not land is taken to be done if the record does not read.
In every other case a removal that is done has left no record.
-/

set_option autoImplicit false

namespace GuardedRows.Tx

open StoreStep

/-- There is a record and it does not read. -/
def Id.Unread (id : Id) (store : Memory) : Prop :=
  ∃ record cause, store.read id.text = some record ∧ Snapshot.ofRecord record = .error cause

theorem Id.snapshot?_eq_none_iff {id : Id} {store : Memory} :
    id.snapshot? store = none ↔ store.read id.text = none ∨ id.Unread store := by
  unfold snapshot? readable Unread
  cases found : store.read id.text with
  | none => simp
  | some record =>
      cases read : Snapshot.ofRecord record with
      | error cause => simp [read, Except.toOption]
      | ok snapshot => simp [read, Except.toOption]

/-! ## What a verifier is shown -/

theorem Edit.settle_of_no_writes {id : Id} {edits : List Edit} {store : Memory}
    (blank : (mutation id edits).hasWrites = false) (verifier : Option Snapshot → Bool) :
    settle id edits verifier store = .error (.refused (.noWrites id.text)) store := by
  unfold settle Mutation.settle Mutation.attempt
  simp only [blank, Bool.false_eq_true, ↓reduceIte]
  rfl

/-- Nothing is shown of a row only if there is no record, unless the record that a hidden
outcome left does not read. -/
theorem Edit.shown_iff (id : Id) (edits : List Edit) (store : Memory) :
    (∀ verifier settlement later, settle id edits verifier store = .ok settlement later →
        settlement.seen = some none → later.read id.text = none) ↔
      (mutation id edits).hasWrites = false ∨ store.faults = [] ∨
        ¬id.Unread (store.submit (mutation id edits)).2 := by
  cases writes : (mutation id edits).hasWrites with
  | false =>
      refine iff_of_true (fun verifier settlement later settled => ?_) (.inl rfl)
      rw [settle_of_no_writes writes] at settled
      cases settled
  | true =>
      have settles : ∀ verifier, settle id edits verifier store = _ :=
        fun verifier => settle_eq writes verifier
      by_cases told : store.faults = []
      · refine iff_of_true (fun verifier settlement later settled unseen => ?_) (.inr (.inl told))
        rw [settles, if_pos told] at settled
        cases settled
        cases unseen
      · simp only [told, Bool.true_eq_false, false_or]
        constructor
        · rintro faithful ⟨record, cause, found, unread⟩
          have shown := id.snapshot?_eq_none_iff.mpr (.inr ⟨record, cause, found, unread⟩)
          have absent := faithful (fun _ => true) _ _ (settles _)
            (by rw [if_neg told]; exact congrArg some shown)
          cases found.symm.trans absent
        · intro reads verifier settlement later settled unseen
          rw [settles, if_neg told] at settled
          cases settled
          exact (id.snapshot?_eq_none_iff.mp (Option.some.inj unseen)).resolve_right reads

/-! ## Removals -/

/-- The mutation that removes the transaction of a handle. -/
def Handle.removal (handle : Handle) : Mutation :=
  Edit.mutation handle.transaction (Stacks.deleteEdits handle)

section Removal

variable {store : Memory} {handle : Handle}

theorem Handle.delete_eq_confirms (handle : Handle) (store : Memory) :
    let later := (store.submit handle.removal).2
    handle.delete store =
      if store.confirms handle.removal (handle.transaction.snapshot? later).isNone then
        .ok () later
      else .error (.refused (.actNotAccepted handle.transaction .delete .rejected)) later :=
  handle.settled_eq .delete (Stacks.deleteEdits handle) rfl (fun current => current.isNone) store

theorem Handle.read_of_removed (landed : store.lands handle.removal = true) :
    (store.submit handle.removal).2.read handle.transaction.text = none := by
  have row : handle.removal.row = handle.transaction.text := rfl
  rw [Memory.read_submit, if_pos ⟨row.symm, landed⟩]
  rfl

/-- A removal that is done has left no record, unless it did not land unseen and there is a
record that does not read. -/
theorem Handle.removed_iff (handle : Handle) (store : Memory) :
    (handle.delete.value? store = some () →
        (handle.delete.after store).read handle.transaction.text = none) ↔
      store.faults = [] ∨ store.lands handle.removal = true ∨
        ¬handle.transaction.Unread store := by
  have deletes := handle.delete_eq_confirms store
  dsimp only at deletes
  rw [value?_of_ite deletes, after_of_ite deletes]
  unfold Memory.confirms
  cases landed : store.lands handle.removal with
  | true => exact iff_of_true (fun _ => read_of_removed landed) (.inr (.inl rfl))
  | false =>
      have unchanged := Memory.read_of_missed landed
      have shown := Id.snapshot?_of_missed landed
      rw [unchanged, shown]
      by_cases told : store.faults = []
      · simp [told]
      · simp only [told, ↓reduceIte, Option.isNone_iff_eq_none, Id.snapshot?_eq_none_iff,
          Bool.false_eq_true, false_or, Option.ite_none_right_eq_some, and_true]
        constructor
        · rintro gone ⟨record, cause, found, unread⟩
          cases found.symm.trans (gone (.inr ⟨record, cause, found, unread⟩))
        · intro reads unseen
          exact unseen.resolve_right reads

end Removal

/-- Whatever is in the store and whatever hides the outcomes. A verifier is shown nothing only
where there is no record, and a removal that is done has left no record: both hold just if
nothing hides the outcome or the record reads that is there afterwards. -/
theorem removals_told_iff (store : Memory) :
    (∀ id edits,
      (∀ verifier settlement later, Edit.settle id edits verifier store = .ok settlement later →
        settlement.seen = some none → later.read id.text = none) ↔
      (Edit.mutation id edits).hasWrites = false ∨ store.faults = [] ∨
        ¬id.Unread (store.submit (Edit.mutation id edits)).2) ∧
    ∀ handle : Handle,
      (handle.delete.value? store = some () →
        (handle.delete.after store).read handle.transaction.text = none) ↔
      store.faults = [] ∨ store.lands handle.removal = true ∨
        ¬handle.transaction.Unread store :=
  ⟨fun id edits => Edit.shown_iff id edits store, fun handle => handle.removed_iff store⟩

/-- A reserved transaction with a step in a column that is no position, and a mutation about to
be dropped unseen. -/
def misplacedStep : Memory :=
  { ((Clients.start.run 100 (reserved "worker")).store.submit
      ⟨holder.transaction.text, [], [.put ⟨stepFamily, "zz"⟩ [1]]⟩).2 with faults := [.dropped] }

/-- A removal is answered as done, since its verifier is shown nothing, and the record is still
there. -/
theorem removal_untold_misplacedStep :
    holder.delete.value? misplacedStep = some () ∧
      ((Edit.settle holder.transaction (Stacks.deleteEdits holder) Option.isNone).value?
        misplacedStep).bind Settlement.seen = some none ∧
      ((holder.delete.after misplacedStep).read holder.transaction.text).isSome = true := by
  decide +kernel

end GuardedRows.Tx
