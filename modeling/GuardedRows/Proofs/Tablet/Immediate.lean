import GuardedRows.Proofs.Tablet.Deliveries

/-!
# Answers that arrive at once

A batch whose answers arrive at once settles each submission before the next. Between two
submissions it waits for nothing, so it never meets a delivery that it does not await, and a
submission that is taken fails only if the tablet has to be read and does not read.
-/

set_option autoImplicit false

namespace GuardedRows.Tablet.Batch

open StoreStep

variable {σ ρ : Type} [RowStore σ] {consumer : Consumer σ ρ} {batch : Batch σ ρ}
  {extent : Extent} {validator : Validator} {answer : Except Error Outcome}

/-! ## One delivery -/

theorem processReady_of_single {delivery : Delivery} (queue : batch.queue = [delivery])
    (arrived : delivery.arrived = true) :
    processReady consumer batch = process consumer delivery { batch with queue := [] } := by
  unfold processReady
  rw [get_bind_apply, queue]
  unfold processEach
  rw [modify_bind_apply]
  simp only [arrived, ↓reduceIte]
  cases processed : process consumer delivery { batch with queue := [] } with
  | ok value later => exact bind_of_ok processed _
  | error failure later => exact bind_of_error processed _

theorem processReady_of_ok {outcome : Outcome} {made : ρ} {seen noted : σ}
    (queue : batch.queue = [⟨extent, answer, true⟩])
    (pending : batch.pending = [(extent, validator)])
    (resolved : resolve extent validator answer batch.store = .ok outcome seen)
    (consumed : consumer extent outcome seen = (made, noted)) :
    processReady consumer batch =
      .ok () { batch with
        store := noted
        queue := []
        pending := []
        reports := batch.reports ++ [made] } := by
  have kept : batch.pending.find? (·.1 = extent) = some (extent, validator) := by simp [pending]
  rw [processReady_of_single queue rfl, process_eq_of_ok kept resolved]
  simp [settling, pending, consumed]

theorem processReady_of_error {failure : Error} {seen : σ}
    (queue : batch.queue = [⟨extent, answer, true⟩])
    (pending : batch.pending = [(extent, validator)])
    (failed : resolve extent validator answer batch.store = .error failure seen) :
    ∃ later, processReady consumer batch = .error failure later := by
  have kept : batch.pending.find? (·.1 = extent) = some (extent, validator) := by simp [pending]
  rw [processReady_of_single queue rfl]
  exact ⟨_, process_eq_of_error kept failed⟩

/-! ## Batches that wait for nothing -/

structure Idle (batch : Batch σ ρ) : Prop where
  queue : batch.queue = []
  waiting : batch.waiting = []
  pending : batch.pending = []

/-- A failure is that of a tablet which could not be read. -/
def Unread (σ : Type) [RowStore σ] (failure : Error) : Prop :=
  ∃ (extent : Extent) (store seen : σ), find extent store = .error failure seen

theorem Idle.submit (idle : batch.Idle) {edits : List Edit}
    (taken : refusal? batch.submitted extent edits = none) (consumer : Consumer σ ρ)
    (validator : Validator) :
    (∃ later, submit consumer false extent edits validator batch = .ok () later ∧
      later.Idle ∧ later.submitted = batch.submitted ++ [extent]) ∨
    ∃ failure later, submit consumer false extent edits validator batch =
      .error failure later ∧ Unread σ failure := by
  obtain ⟨answer, store, answered⟩ :=
    exists_outcome (RowStore.submit (Edit.mutation extent edits)) batch.store
  rw [submit_eq_of_taken taken consumer false validator answered]
  have queue : (batch.sent false extent validator answer store).queue =
      [⟨extent, answer, true⟩] := by
    simp [sent, idle.queue]
  have pending : (batch.sent false extent validator answer store).pending =
      [(extent, validator)] := by
    simp [sent, idle.pending]
  cases settled : resolve extent validator answer store with
  | ok outcome seen =>
      left
      exact ⟨_, processReady_of_ok queue pending settled rfl, ⟨rfl, idle.waiting, rfl⟩, rfl⟩
  | error failure seen =>
      right
      obtain ⟨later, failed⟩ : ∃ later, processReady consumer
          (batch.sent false extent validator answer store) = .error failure later :=
        processReady_of_error queue pending settled
      exact ⟨failure, later, failed, extent, store, seen, find_of_resolve_error settled⟩

theorem Idle.close (idle : batch.Idle) (consumer : Consumer σ ρ) (order : Arrival) :
    close consumer order batch = .ok () batch := by
  obtain ⟨store, queue, waiting, pending, submitted, reports⟩ := batch
  obtain ⟨rfl, rfl, rfl⟩ := idle
  cases order <;> rfl

/-- Work that leaves a batch idle fails the run only by failing itself. -/
theorem error_of_run {work : BatchStep σ ρ Unit} {store later : σ} {failure : Error}
    (settles : ∀ batch, work { store } = .ok () batch → batch.Idle)
    (ran : run consumer work store = .error failure later) :
    ∃ batch, work { store } = .error failure batch := by
  unfold run at ran
  cases worked : work { store } with
  | error other batch =>
      rw [worked] at ran
      cases ran
      exact ⟨batch, rfl⟩
  | ok value batch =>
      simp only [worked, (settles batch worked).close consumer .inOrder] at ran
      cases ran

end GuardedRows.Tablet.Batch
