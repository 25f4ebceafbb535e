import GuardedRows.Proofs.Tx.Sweep

/-!
# Outcomes that nobody settles

A change of a detail and a sweep read nothing back. So a detail that was stored unseen is
answered as refused, and a reservation that was released unseen is not counted. In every other
case what is told is what happened.
-/

set_option autoImplicit false

namespace GuardedRows.Tx

open StoreStep

/-! ## Details -/

/-- A detail that is answered as refused has changed nothing, unless it was stored unseen in
place of something else. -/
theorem Handle.setInfo_told_iff {store : Memory} {handle : Handle} {info : Info}
    {value : String} (filed : store.Filed) :
    ((handle.setInfo info value).value? store = none →
        ((handle.setInfo info value).after store).rows = store.rows) ↔
      store.faults.head? ≠ some .applied ∨ ¬handle.Matches store ∨
        store.cell? handle.transaction.text info.column = some (Bytes.ofText value) := by
  obtain ⟨refused, after⟩ := handle.setInfo_outcome info value store
  have row : (handle.detail info value).row = handle.transaction.text := rfl
  have lands : store.lands (handle.detail info value) = true ↔ _ := Handle.lands_iff rfl row
  rw [refused, after, Memory.outcome_submit]
  cases landed : store.lands (handle.detail info value) with
  | false =>
      refine iff_of_true (fun _ => Memory.rows_of_missed landed) ?_
      by_cases first : store.faults.head? = some .applied
      · refine .inr (.inl fun guarded => ?_)
        rw [lands.mpr ⟨by simp [first], guarded⟩] at landed
        cases landed
      · exact .inl first
  | true =>
      obtain ⟨kept, guarded⟩ := lands.mp landed
      rw [filed.rows_put_iff rfl landed, row]
      cases shape : store.faults with
      | nil => simp
      | cons fault faults =>
          cases fault with
          | applied => simp [guarded]
          | dropped => simp [shape] at kept

/-! ## Counts -/

/-- A sweep counts the reservations it has released but for those that were released unseen. -/
theorem Stacks.exists_released {limit : UInt32} {piles : Id → List Bytes} {store : Memory}
    {uuids : List Uuid} (holds : Stacks limit piles store) (registered : Registered uuids store)
    (isLive : LockId → Bool) :
    ∃ (dead released : List Id) (asked : List LockId) (count : Nat) (later : Memory),
      dead.Nodup ∧ (∀ id, id ∈ dead ↔ id.Dead isLive store) ∧
      released.Nodup ∧ (∀ id, id ∈ released ↔ id.Released store later) ∧
      releaseDead isLive store = .ok ⟨asked, .ok count⟩ later ∧
      count + (store.faults.take dead.length).count .applied = released.length := by
  obtain ⟨dead, asked, found, ran⟩ := holds.exists_dead registered isLive
  have ready := holds.ready_of_dead found
  obtain ⟨kept, among, sent⟩ :=
    List.sublist_map_iff.mp (Memory.undropped_sublist store.faults (dead.map Handle.release))
  have keptLand : store.told.Ready (kept.map Handle.release) :=
    (ready.of_sublist (among.map _)).of_rows rfl
  have told := Memory.told_submitAll store (dead.map Handle.release)
  rw [sent] at told
  have taken : ∀ id : Id, id.Released store (store.submitAll (dead.map Handle.release)) ↔
      id ∈ kept.map Handle.transaction := by
    intro id
    rw [← released_iff keptLand rfl, ← told]
    exact Iff.rfl
  have counted := ready.count_accepted
  rw [sent, List.length_map, List.length_map] at counted
  refine ⟨dead.map Handle.transaction, kept.map Handle.transaction, asked, _, _,
    found.distinct, fun id => found.mem_transactions_iff, found.distinct.sublist (among.map _),
    fun id => (taken id).symm, ran, ?_⟩
  rw [List.length_map, List.length_map]
  exact counted

/-! ## Runs -/

/-- In every store that a run can leave, with any faults in wait. A detail that is answered as
refused has changed nothing, just if it was not stored unseen in place of something else. And
of the reservations that a sweep has taken away, it counts all but those whose release was
applied unseen, so the count is right just if there is none. -/
theorem Clients.unsettled_told_iff (limit : UInt32) (events : List Event)
    (faults : List Fault) :
    let store : Memory := { (start.run limit events).store with faults }
    (∀ (handle : Handle) info value,
      ((handle.setInfo info value).value? store = none →
          ((handle.setInfo info value).after store).rows = store.rows) ↔
        faults.head? ≠ some .applied ∨ ¬handle.Matches store ∨
          store.cell? handle.transaction.text info.column = some (Bytes.ofText value)) ∧
    ∀ isLive, ∃ (dead released : List Id) (asked : List LockId) (count : Nat) (later : Memory),
      dead.Nodup ∧ (∀ id, id ∈ dead ↔ id.Dead isLive store) ∧
      released.Nodup ∧ (∀ id, id ∈ released ↔ id.Released store later) ∧
      releaseDead isLive store = .ok ⟨asked, .ok count⟩ later ∧
      count + (faults.take dead.length).count .applied = released.length ∧
      (count = released.length ↔ .applied ∉ faults.take dead.length) := by
  intro store
  have holds : Stacks limit _ store := Stacks.reached limit events faults
  have registered : Registered _ store := Registered.reached limit events faults
  refine ⟨fun handle info value => Handle.setInfo_told_iff holds.filed, fun isLive => ?_⟩
  obtain ⟨dead, released, asked, count, later, distinct, mem, once, taken, ran, counted⟩ :=
    holds.exists_released registered isLive
  have unseen : count + (faults.take dead.length).count .applied = released.length := counted
  refine ⟨dead, released, asked, count, later, distinct, mem, once, taken, ran, unseen, ?_⟩
  rw [← List.count_eq_zero]
  omega

/-- A reserved transaction, and a mutation about to be applied unseen. -/
def appliedUnseen : Memory :=
  { (Clients.start.run 100 (reserved "worker")).store with faults := [.applied] }

/-- A detail is answered as refused and is stored, and a sweep tells of no reservation and has
released one. -/
theorem Clients.unsettled_untold_applied :
    ((holder.setInfo .name "compact").value? appliedUnseen = none ∧
      appliedUnseen.cell? holder.transaction.text Info.name.column = none ∧
      ((holder.setInfo .name "compact").after appliedUnseen).cell? holder.transaction.text
        Info.name.column = some (Bytes.ofText "compact")) ∧
    ((releaseDead fun _ => false).value? appliedUnseen).map (·.released.toOption) =
        some (some 0) ∧
      appliedUnseen.cell? holder.transaction.text reservationColumn =
        some (Bytes.ofText holder.reservation.text) ∧
      ((releaseDead fun _ => false).after appliedUnseen).cell? holder.transaction.text
        reservationColumn = none := by
  decide +kernel

end GuardedRows.Tx
