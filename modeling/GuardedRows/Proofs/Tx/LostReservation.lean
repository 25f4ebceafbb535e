import GuardedRows.Proofs.Store.Transparency
import GuardedRows.Proofs.Tx.Reading
import GuardedRows.Proofs.Tx.StackRun

/-!
# Work after a reservation is lost

Nothing that a worker sends lands once its reservation is gone. A push, a pop and a detail then
fail in every case. A change of status looks for the status alone when its outcome is hidden, so
it is answered as done if the record has that status already.
-/

set_option autoImplicit false

namespace GuardedRows.Tx

open StoreStep

/-! ## Single operations -/

section Lost

variable {limit : UInt32} {piles : Id → List Bytes} {store : Memory} {handle : Handle}

private theorem value?_of_acted {step : StoreStep Memory Unit} {act : Act}
    {request : HandleRequest} {edits : List Edit} (lost : ¬handle.Matches store)
    (sends : handle.Sends request edits) (acts : step store = handle.acted act edits store) :
    step.value? store = none := by
  unfold Handle.acted at acts
  rw [value?_of_ite acts, sends.lands_eq_false lost, if_neg Bool.false_ne_true]

theorem Stacks.push_of_lost (holds : Stacks limit piles store) (lost : ¬handle.Matches store)
    (step : Bytes) : (handle.push limit step).value? store = none := by
  rcases holds.push_cases handle step with ⟨error, failed⟩ | ⟨_, acts⟩
  · rw [StoreStep.value?, failed]
  · exact value?_of_acted lost (.push _ step) acts

theorem Stacks.pop_of_lost (holds : Stacks limit piles store) (lost : ¬handle.Matches store) :
    handle.pop.value? store = none := by
  rcases holds.pop_cases handle with ⟨error, failed⟩ | ⟨top, below, _, acts⟩
  · rw [StoreStep.value?, failed]
  · exact value?_of_acted lost (.pop _) acts

theorem Handle.setInfo_of_lost (lost : ¬handle.Matches store) (info : Info) (value : String) :
    (handle.setInfo info value).value? store = none := by
  have missed : store.lands (handle.detail info value) = false :=
    (Handle.Sends.setInfo info value).lands_eq_false lost
  refine (handle.setInfo_outcome info value store).1.mpr fun accepted => ?_
  cases missed.symm.trans (Memory.lands_of_accepted accepted)

/-- A change of status without the reservation is told to have failed unless its outcome is
hidden and the record has the status already. -/
theorem Handle.setStatus_of_lost_iff (lost : ¬handle.Matches store) (status : Status) :
    (handle.setStatus status).value? store = none ↔
      store.faults = [] ∨ handle.transaction.status? store ≠ some status := by
  have missed : store.lands
      (Edit.mutation handle.transaction (handle.statusEdits status)) = false :=
    (Handle.Sends.setStatus status).lands_eq_false lost
  have sets := handle.setStatus_eq status store
  dsimp only at sets
  rw [Id.status?_of_missed missed] at sets
  rw [value?_of_ite sets]
  unfold Memory.confirms
  by_cases told : store.faults = []
  · simp [told, missed]
  · simp [told]

end Lost

/-! ## Runs -/

/-- Over every store that a run can leave, with any faults in wait, and for every handle whose
reservation is not stored: a push, a pop and a detail fail, and a change of status fails just
if its outcome is told or the record has another status. -/
theorem Clients.lost_told_iff (limit : UInt32) (events : List Event) (faults : List Fault)
    (handle : Handle)
    (lost : ¬handle.Matches { (start.run limit events).store with faults }) :
    let store : Memory := { (start.run limit events).store with faults }
    (∀ step, (handle.push limit step).value? store = none) ∧
    handle.pop.value? store = none ∧
    (∀ info value, (handle.setInfo info value).value? store = none) ∧
    ∀ status, (handle.setStatus status).value? store = none ↔
      faults = [] ∨ handle.transaction.status? store ≠ some status := by
  intro store
  have holds : Stacks limit _ store := Stacks.reached limit events faults
  refine ⟨fun step => ?_, ?_, fun info value => ?_, fun status => ?_⟩
  · exact holds.push_of_lost lost step
  · exact holds.pop_of_lost lost
  · exact Handle.setInfo_of_lost lost info value
  · exact Handle.setStatus_of_lost_iff lost status

/-- The dead reservation of one worker is released and another worker reserves. -/
def takenOver : List Event :=
  reserved "first" ++
    [.request (.releaseDead fun _ => false),
      .request (.tryReserve ⟨.user, uuidOf 1⟩ ⟨"p", "n", 8⟩ (uuidOf 3) "second")]

/-- The first worker finds neither its reservation nor a status other than the first. -/
private theorem Clients.lost_takenOver :
    let store : Memory := { (start.run 100 takenOver).store with faults := [.dropped] }
    store.cell? holder.transaction.text reservationColumn ≠
        some (Bytes.ofText holder.reservation.text) ∧
      holder.transaction.status? store ≠ some .submitted ∧
      (holder.setStatus .new).value? store = some () := by
  decide +kernel

theorem Clients.lost_told_takenOver :
    (holder.setStatus .submitted).value? { (start.run 100 takenOver).store with
      faults := [.dropped] } = none := by
  obtain ⟨lost, other, _⟩ := lost_takenOver
  exact ((lost_told_iff 100 takenOver [.dropped] holder lost).2.2.2 .submitted).mpr (.inr other)

/-- The worker that lost its reservation is told that it has set the status. -/
theorem Clients.lost_untold_takenOver :
    ¬holder.Matches { (start.run 100 takenOver).store with faults := [.dropped] } ∧
    (holder.setStatus .new).value? { (start.run 100 takenOver).store with
      faults := [.dropped] } = some () := by
  obtain ⟨lost, _, done⟩ := lost_takenOver
  exact ⟨lost, done⟩

end GuardedRows.Tx
