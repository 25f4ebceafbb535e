import GuardedRows.Proofs.Store.Settle
import GuardedRows.Tx.Lifecycle

/-!
# What edits do to the cells of a transaction

A reservation is only put by the edit that makes it, and steps are only changed by the edits
of steps and by the removal of the whole record.
-/

set_option autoImplicit false

namespace GuardedRows.Tx

theorem stepColumn_ne {column : Column} (fact : column.family = factFamily)
    (position : UInt32) : stepColumn position ≠ column := by
  rintro rfl
  exact absurd fact (by decide : stepFamily ≠ factFamily)

theorem Info.column_ne {column : Column} (fact : column.family = factFamily) (info : Info) :
    info.column ≠ column := by
  rintro rfl
  cases info <;> exact absurd fact (by decide : infoFamily ≠ factFamily)

namespace Edit

open StoreStep

variable {store : Memory} {id : Id} {edits : List Edit}

theorem read_submit (store : Memory) (id : Id) (edits : List Edit) (row : String) :
    (store.submit (mutation id edits)).2.read row =
      if row = id.text ∧ store.lands (mutation id edits) = true then
        (mutation id edits).applyTo (store.read id.text)
      else store.read row :=
  store.read_submit (mutation id edits) row

theorem cell?_submit (store : Memory) (id : Id) (edits : List Edit) (row : String)
    (column : Column) :
    (store.submit (mutation id edits)).2.cell? row column =
      if row = id.text ∧ store.lands (mutation id edits) = true then
        (mutation id edits).writes.foldl (Write.onCell column) (store.cell? row column)
      else store.cell? row column :=
  store.cell?_submit (mutation id edits) row column

theorem eq_reserve_of_put {edit : Edit} {value : Bytes}
    (member : .put reservationColumn value ∈ edit.writes) :
    ∃ reservation, edit = .reserve reservation ∧ value = Bytes.ofText reservation.text := by
  have steps : ∀ position, stepColumn position ≠ reservationColumn := stepColumn_ne rfl
  have details : ∀ info : Info, info.column ≠ reservationColumn := Info.column_ne rfl
  cases edit with
  | putStatus status => simp [writes, reservationColumn, statusColumn] at member
  | putCreateTime time => simp [writes, reservationColumn, createTimeColumn] at member
  | putInfo info value => simp [writes, (details info).symm] at member
  | putStep position step => simp [writes, (steps position).symm] at member
  | reserve reservation => exact ⟨reservation, rfl, by simpa [writes] using member⟩
  | _ => simp [writes] at member

/-- The reservation of a row stays, is emptied or makes room for one that is made. -/
theorem reservation_submit (store : Memory) (id : Id) (edits : List Edit) (row : String) :
    (store.submit (mutation id edits)).2.cell? row reservationColumn =
        store.cell? row reservationColumn ∨
      (store.submit (mutation id edits)).2.cell? row reservationColumn = none ∨
      ∃ reservation, .reserve reservation ∈ edits ∧
        (store.submit (mutation id edits)).2.cell? row reservationColumn =
          some (Bytes.ofText reservation.text) := by
  rw [Memory.cell?_submit]
  split
  · rcases Write.foldl_onCell (mutation id edits).writes reservationColumn
      (store.cell? row reservationColumn) with kept | none | ⟨value, member, put⟩
    · exact .inl kept
    · exact .inr (.inl none)
    · obtain ⟨edit, among, member⟩ := List.mem_flatMap.mp member
      obtain ⟨reservation, rfl, rfl⟩ := eq_reserve_of_put member
      exact .inr (.inr ⟨reservation, among, put⟩)
  · exact .inl rfl

def changesSteps : Edit → Bool
  | .putStep _ _ | .deleteStep _ | .delete => true
  | _ => false

private theorem onCell_of_leavesSteps {edit : Edit} (leaves : edit.changesSteps = false)
    {column : Column} (step : column.family = stepFamily) (cell : Option Bytes) :
    edit.writes.foldl (Write.onCell column) cell = cell := by
  have other : ∀ target : Column, target.family ≠ stepFamily → target ≠ column :=
    fun target different same => different (same ▸ step)
  have details : ∀ info : Info, info.column.family ≠ stepFamily := by
    intro info
    cases info <;> decide
  cases edit with
  | putStatus status => simp [writes, Write.onCell, other statusColumn (by decide)]
  | putCreateTime time => simp [writes, Write.onCell, other createTimeColumn (by decide)]
  | putInfo info value => simp [writes, Write.onCell, other info.column (details info)]
  | reserve reservation => simp [writes, Write.onCell, other reservationColumn (by decide)]
  | release reservation => simp [writes, Write.onCell, other reservationColumn (by decide)]
  | putStep position step => cases leaves
  | deleteStep position => cases leaves
  | delete => cases leaves
  | _ => rfl

private theorem onCell_flatMap_of_leavesSteps
    (leaves : edits.any changesSteps = false) {column : Column}
    (step : column.family = stepFamily) (cell : Option Bytes) :
    (edits.flatMap writes).foldl (Write.onCell column) cell = cell := by
  induction edits generalizing cell with
  | nil => rfl
  | cons edit rest ih =>
      rw [List.any_cons, Bool.or_eq_false_iff] at leaves
      rw [List.flatMap_cons, List.foldl_append, onCell_of_leavesSteps leaves.1 step]
      exact ih leaves.2 cell

theorem step_submit (leaves : edits.any changesSteps = false) {column : Column}
    (step : column.family = stepFamily) (row : String) :
    (store.submit (mutation id edits)).2.cell? row column = store.cell? row column := by
  rw [Memory.cell?_submit]
  split
  · exact onCell_flatMap_of_leavesSteps leaves step _
  · rfl

theorem settle_eq (writes : (mutation id edits).hasWrites = true)
    (verifier : Option Snapshot → Bool) :
    settle id edits verifier store =
      .ok ⟨store.settled (mutation id edits) fun current => verifier (readable current),
          if store.faults = [] then none
          else some (readable ((store.submit (mutation id edits)).2.read id.text))⟩
        (store.submit (mutation id edits)).2 := by
  have settled : (mutation id edits).settle (fun current => verifier (readable current)) store =
      _ := Mutation.settle_eq writes _
  unfold settle
  rw [bind_of_ok settled]
  by_cases told : store.faults = []
  · simp only [told, ↓reduceIte]
    rfl
  · simp only [told, ↓reduceIte]
    rfl

end Edit

end GuardedRows.Tx
