import GuardedRows.Proofs.Store.Transparency
import GuardedRows.Proofs.Tx.Reading
import GuardedRows.Proofs.Tx.Register
import GuardedRows.Proofs.Tx.StackRun

/-!
# Operations whose outcome is hidden

A creation, a push, a pop, a change of status and a removal are transparent: whether the
mutation of a holder was applied or dropped unseen, the verifier finds out what became of it.
-/

set_option autoImplicit false

namespace GuardedRows.Tx

open StoreStep

/-! ## What lands moves rows -/

namespace Stacks

variable {limit : UInt32} {piles : Id → List Bytes} {store later : Memory} {handle : Handle}
  {record : Record}

theorem rows_ne_of_height (holds : Stacks limit piles store) {pilesLater : Id → List Bytes}
    (holdsLater : Stacks limit pilesLater later) (id : Id)
    (moved : (pilesLater id).length ≠ (piles id).length) : later.rows ≠ store.rows := by
  intro same
  have positions : id.positions later = id.positions store := by
    unfold Id.positions Id.snapshot? Memory.read
    rw [same]
  rw [holdsLater.positions_eq, holds.positions_eq] at positions
  have heights := congrArg List.length positions
  simp only [List.length_map, length_stackSteps] at heights
  exact moved heights

theorem push_transparent (holds : Stacks limit piles store)
    (found : store.read handle.transaction.text = some record) (step : Bytes) :
    Transparent (handle.push limit step) store := by
  have told : Stacks limit piles store.told := holds.of_rows rfl
  have acts := holds.push_eq step found
  have actsTold := told.push_eq step found
  by_cases full : limit.toNat ≤ (piles handle.transaction).length
  · rw [if_pos full] at acts actsTold
    exact .of_error acts actsTold
  · rw [if_neg full] at acts actsTold
    refine .of_lands (.of_ite acts) (.of_ite actsTold) fun landed => ?_
    have pushed := told.submit_push handle step (Nat.lt_of_not_le full)
    rw [stacksAfter, landed, if_pos rfl] at pushed
    refine told.rows_ne_of_height pushed handle.transaction ?_
    rw [setStack, if_pos rfl]
    exact Nat.succ_ne_self _

theorem pop_transparent (holds : Stacks limit piles store)
    (found : store.read handle.transaction.text = some record) :
    Transparent handle.pop store := by
  have told : Stacks limit piles store.told := holds.of_rows rfl
  have acts := holds.pop_eq found
  have actsTold := told.pop_eq found
  cases shape : piles handle.transaction with
  | nil =>
      rw [shape] at acts actsTold
      exact .of_error acts actsTold
  | cons top below =>
      rw [shape] at acts actsTold
      refine .of_lands (.of_ite acts) (.of_ite actsTold) fun landed => ?_
      have popped := told.submit_pop shape
      rw [stacksAfter, landed, if_pos rfl] at popped
      refine told.rows_ne_of_height popped handle.transaction ?_
      rw [setStack, if_pos rfl, shape]
      exact (Nat.succ_ne_self _).symm

theorem delete_transparent (holds : Stacks limit piles store)
    (found : store.read handle.transaction.text = some record) :
    Transparent handle.delete store := by
  have told : Stacks limit piles store.told := holds.of_rows rfl
  have acts := holds.delete_eq found
  have actsTold := told.delete_eq found
  refine .of_lands (.of_ite acts) (.of_ite actsTold) fun landed same => ?_
  have gone : (store.told.submit (Edit.mutation handle.transaction
      (deleteEdits handle))).2.read handle.transaction.text = none := by
    rw [Edit.read_submit, if_pos ⟨rfl, landed⟩]
    rfl
  rw [Memory.read, same] at gone
  cases gone.symm.trans found

/-- The status that a creation looks for is there exactly if the creation lands. -/
private theorem status?_create (holds : Stacks limit piles store) {id : Id}
    (absent : store.read id.text = none) (now : UInt64) :
    decide (id.status? (store.submit (Edit.mutation id (createEdits now))).2 = some .new) =
      store.lands (Edit.mutation id (createEdits now)) := by
  cases landed : store.lands (Edit.mutation id (createEdits now)) with
  | true =>
      have after : Stacks limit piles (store.submit (Edit.mutation id (createEdits now))).2 :=
        holds.submit_of_leavesSteps rfl
      refine decide_eq_true (after.status?_of_cell ?_)
      rw [Edit.cell?_submit, if_pos ⟨rfl, landed⟩]
      rfl
  | false =>
      rw [Id.status?_of_missed landed, Id.status?, snapshot?_of_absent absent]
      rfl

theorem create_transparent (holds : Stacks limit piles store) {home : Instance} {drawn : Uuid}
    (absent : store.read (Id.text ⟨home, drawn⟩) = none) (now : UInt64) :
    Transparent (create home drawn now) store := by
  have told : Stacks limit piles store.told := holds.of_rows rfl
  have absentTold : store.told.read (Id.text ⟨home, drawn⟩) = none := absent
  have creates := create_eq home drawn now store
  have createsTold := create_eq home drawn now store.told
  dsimp only at creates createsTold
  rw [holds.status?_create absent, Memory.confirms_lands] at creates
  rw [told.status?_create absentTold, Memory.confirms_lands] at createsTold
  refine .of_lands (.of_ite creates) (.of_ite createsTold) fun landed same => ?_
  have after := told.status?_create absentTold now
  rw [landed, Id.status?, snapshot?_of_absent] at after
  · cases after
  · rw [Memory.read, same]
    exact absent

end Stacks

/-! ## Changes of status -/

section SetStatus

variable {limit : UInt32} {piles : Id → List Bytes} {store : Memory} {handle : Handle}
  {status : Status}

theorem Handle.Matches.lands_setStatus (guarded : handle.Matches store) (status : Status)
    (kept : store.faults.head? ≠ some .dropped) :
    store.lands (Edit.mutation handle.transaction (handle.statusEdits status)) = true :=
  (Handle.lands_iff rfl rfl).mpr ⟨kept, guarded⟩

/-- Putting a status changes no row exactly if the record has it already. -/
private theorem rows_setStatus_iff (holds : Stacks limit piles store)
    (named : ∃ stored : Status, store.cell? handle.transaction.text statusColumn =
      some (Bytes.ofText stored.text))
    (landed : store.lands (Edit.mutation handle.transaction (handle.statusEdits status)) = true) :
    (store.submit (Edit.mutation handle.transaction (handle.statusEdits status))).2.rows =
        store.rows ↔
      handle.transaction.status? store = some status := by
  obtain ⟨stored, cell⟩ := named
  refine (holds.filed.rows_put_iff rfl landed).trans ⟨holds.status?_of_cell, fun known => ?_⟩
  obtain rfl : stored = status :=
    Option.some.inj ((holds.status?_of_cell cell).symm.trans known)
  exact cell

/-- A change of status by the holder misses only if it is dropped. It is then taken for applied
just if the status is there already, where applying it would have changed nothing. -/
theorem Stacks.setStatus_transparent (holds : Stacks limit piles store) {uuids : List Uuid}
    (registered : Registered uuids store) (guarded : handle.Matches store) (status : Status) :
    Transparent (handle.setStatus status) store := by
  have told : Stacks limit piles store.told := holds.of_rows rfl
  have guardedTold : handle.Matches store.told := guarded
  have landedTold : store.told.lands
      (Edit.mutation handle.transaction (handle.statusEdits status)) = true :=
    guardedTold.lands_setStatus status nofun
  have sets := handle.setStatus_eq status store
  have setsTold := handle.setStatus_eq status store.told
  dsimp only at sets setsTold
  rw [Memory.confirms_told] at setsTold
  refine .of_sendsOne (.of_ite sets) (.of_ite setsTold) (fun landed => ?_) fun missed => ?_
  · have after : Stacks limit piles (store.submit
        (Edit.mutation handle.transaction (handle.statusEdits status))).2 :=
      holds.submit_of_leavesSteps rfl
    have put := Edit.cell?_submit store handle.transaction (handle.statusEdits status)
      handle.transaction.text statusColumn
    rw [if_pos ⟨rfl, landed⟩] at put
    rw [after.status?_of_cell put, decide_eq_true rfl, ← landed, Memory.confirms_lands]
  · have hidden : store.faults ≠ [] := by
      intro none
      have landed := guarded.lands_setStatus status (by simp [none])
      cases missed.symm.trans landed
    obtain ⟨record, found, _⟩ := Option.bind_eq_some_iff.mp guarded
    have named := registered.status handle.transaction.text (by rw [found]; rfl)
    have same : handle.transaction.status? (store.submit
        (Edit.mutation handle.transaction (handle.statusEdits status))).2 =
        handle.transaction.status? store.told := Id.status?_of_missed missed _
    have written := rows_setStatus_iff told named landedTold
    rw [Memory.confirms, if_neg hidden, decide_eq_true_iff, same, ← written]
    exact ⟨fun still => ⟨landedTold, still⟩, And.right⟩

end SetStatus

/-! ## Runs -/

/-- Over every store that a run can leave, with any faults in wait: the creation of a
transaction with a UUID not drawn before, and a push, a pop, a change of status or a removal
through a handle whose reservation is stored, come out as if nothing were hidden. -/
theorem Clients.outcomes_transparent (limit : UInt32) (events : List Event)
    (faults : List Fault) :
    let store : Memory := { (start.run limit events).store with faults }
    (∀ home drawn now, drawn ∉ Tx.drawn events → Transparent (create home drawn now) store) ∧
    ∀ handle : Handle, handle.Matches store →
      (∀ step, Transparent (handle.push limit step) store) ∧
      Transparent handle.pop store ∧
      (∀ status, Transparent (handle.setStatus status) store) ∧
      Transparent handle.delete store := by
  intro store
  have holds : Stacks limit _ store := Stacks.reached limit events faults
  have registered : Registered (Tx.drawn events) store := Registered.reached limit events faults
  refine ⟨fun home drawn now fresh => ?_, fun handle guarded => ?_⟩
  · exact holds.create_transparent (registered.absent fresh home) now
  · obtain ⟨record, found, _⟩ := Option.bind_eq_some_iff.mp guarded
    exact ⟨holds.push_transparent found, holds.pop_transparent found,
      holds.setStatus_transparent registered guarded, holds.delete_transparent found⟩

theorem Clients.outcomes_transparent_hidden :
    (holder.push 100 [7]).value? { (start.run 100 (reserved "worker")).store with
      faults := [.applied] } = some () := by
  let store : Memory := { (start.run 100 (reserved "worker")).store with faults := [.applied] }
  have told : store.cell? holder.transaction.text reservationColumn =
        some (Bytes.ofText holder.reservation.text) ∧
      (holder.push 100 [7]).value? store.told = some () := by
    decide +kernel
  obtain ⟨push, _⟩ := (outcomes_transparent 100 (reserved "worker") [.applied]).2 holder told.1
  exact ((push [7]).applied rfl).1.trans told.2

end GuardedRows.Tx
