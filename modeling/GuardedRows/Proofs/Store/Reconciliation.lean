import GuardedRows.Proofs.Store.Settle

/-!
# Outcomes that are read back

A verifier that knows the row after the writes from the row before them settles every outcome
rightly. The mutation is told to be accepted just if it was applied, whether the store said so
or hid it, and to be rejected just if no row changed.
-/

set_option autoImplicit false

namespace GuardedRows

namespace Memory

variable {store : Memory} {mutation : Mutation}

theorem rows_setRow_ne {row : String} {state : Option Record} (moved : state ≠ store.read row) :
    (store.setRow row state).rows ≠ store.rows := by
  intro same
  have read := store.read_setRow row row state
  rw [if_pos rfl, Memory.read, same] at read
  exact moved read.symm

section Discerned

variable {verifier : Option Record → Bool}
  (unwritten : verifier (store.read mutation.row) = false)
  (written : verifier (mutation.applyTo (store.read mutation.row)) = true)

include unwritten written

theorem settled_of_discerned :
    store.settled mutation verifier =
      if store.lands mutation then .accepted else .rejected := by
  have seen : verifier ((store.submit mutation).2.read mutation.row) = store.lands mutation := by
    cases lands : store.lands mutation with
    | true => rw [read_submit, if_pos ⟨rfl, lands⟩, written]
    | false => rw [read_of_missed lands, unwritten]
  unfold settled
  rw [seen, ite_self]

theorem rows_applied_ne :
    (store.setRow mutation.row (mutation.applyTo (store.read mutation.row))).rows ≠
      store.rows := by
  refine rows_setRow_ne fun same => ?_
  rw [same, unwritten] at written
  cases written

end Discerned

end Memory

namespace Mutation

/-- Settling a mutation with writes never fails. If the verifier is false of the row as it is
and true of the row after the writes, the outcome is accepted exactly if the conditions hold
and no fault drops the mutation, which is exactly if the rows are afterwards as the writes make
them, and it is rejected exactly if the rows are as they were. It is never unknown. -/
theorem settle_reconciles (store : Memory) (mutation : Mutation)
    (verifier : Option Record → Bool) (writes : mutation.hasWrites = true)
    (unwritten : verifier (store.read mutation.row) = false)
    (written : verifier (mutation.applyTo (store.read mutation.row)) = true) :
    ∃ settlement later, mutation.settle verifier store = .ok settlement later ∧
      (settlement.outcome = .accepted ↔
        mutation.conditionsHold (store.read mutation.row) = true ∧
          store.faults.head? ≠ some .dropped) ∧
      (settlement.outcome = .accepted ↔
        later.rows =
          (store.setRow mutation.row (mutation.applyTo (store.read mutation.row))).rows) ∧
      (settlement.outcome = .rejected ↔ later.rows = store.rows) ∧
      settlement.outcome ≠ .unknown := by
  have moved := Memory.rows_applied_ne unwritten written
  have decided : mutation.conditionsHold (store.read mutation.row) = true ∧
      store.faults.head? ≠ some .dropped ↔ store.lands mutation = true := by
    rw [Memory.lands, Bool.and_eq_true_iff, bne_iff_ne, and_comm]
  refine ⟨_, _, settle_eq writes verifier, ?_⟩
  dsimp only
  rw [decided, Memory.settled_of_discerned unwritten written, Memory.rows_submit]
  cases store.lands mutation with
  | true => simp [moved]
  | false => simp [moved.symm]

end Mutation

/-- One row with one cell, and a fault in wait. -/
def oneCellStore (fault : Fault) : Memory :=
  (Memory.empty.submit ⟨"r", [.rowAbsent], [.put ⟨"f", "q"⟩ [1]]⟩).2.addFault fault

/-- Removes the cell, and with it the row. -/
def lastCellRemoval : Mutation := ⟨"r", [.equals ⟨"f", "q"⟩ [1]], [.delete ⟨"f", "q"⟩]⟩

/-- The removal is applied unseen, and the verifier is shown that there is no row. -/
theorem Mutation.settle_reconciles_lastCellRemoval :
    ∃ settlement later,
      lastCellRemoval.settle Option.isNone (oneCellStore .applied) = .ok settlement later ∧
      settlement.outcome = .accepted := by
  obtain ⟨settlement, later, settled, accepted, _⟩ :=
    settle_reconciles (oneCellStore .applied) lastCellRemoval Option.isNone (by decide +kernel)
      (by decide +kernel) (by decide +kernel)
  exact ⟨settlement, later, settled, accepted.mpr (by decide +kernel)⟩

end GuardedRows
