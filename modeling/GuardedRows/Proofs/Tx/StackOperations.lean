import GuardedRows.Proofs.Tx.Settled
import GuardedRows.Proofs.Tx.Stack

/-!
# Operations on piles

A store keeps a stack for every transaction if the step columns of each row hold the stack and
its reservation reads. Edits that change no step keep the stacks. A push, a pop or a removal
is accepted exactly if its mutation lands, whatever the store hides.
-/

set_option autoImplicit false

namespace GuardedRows.Tx

open StoreStep

theorem Id.text_injective {left right : Id} (same : left.text = right.text) : left = right := by
  have read := congrArg Id.parse same
  simpa using read

def setStack (piles : Id → List Bytes) (id : Id) (stack : List Bytes) : Id → List Bytes :=
  fun other => if other = id then stack else piles other

def stacksAfter (piles : Id → List Bytes) (store : Memory) (id : Id) (edits : List Edit)
    (stack : List Bytes) : Id → List Bytes :=
  if store.lands (Edit.mutation id edits) then setStack piles id stack else piles

/-- The stacks of a store, none of them higher than a limit. -/
structure Stacks (limit : UInt32) (piles : Id → List Bytes) (store : Memory) : Prop where
  filed : store.Filed
  reservation : ∀ id : Id, ∀ bytes, store.cell? id.text reservationColumn = some bytes →
    ∃ reservation : Reservation, bytes = Bytes.ofText reservation.text
  steps : ∀ (id : Id) (column : Column), column.family = stepFamily →
    store.cell? id.text column = stackCell (piles id) column
  within : ∀ id, (piles id).length ≤ limit.toNat

namespace Stacks

variable {limit : UInt32} {piles : Id → List Bytes} {store : Memory} {id : Id}
  {edits : List Edit}

theorem fits (holds : Stacks limit piles store) (id : Id) : Fits (piles id) :=
  Nat.le_trans (holds.within id) (Nat.le_of_lt_succ limit.toNat_lt)

/-! ## Reading -/

theorem stacked (holds : Stacks limit piles store) {record : Record}
    (found : store.read id.text = some record) : Stacked record id (piles id) where
  row := holds.filed.row id.text record found
  reservation bytes cell := holds.reservation id bytes (by simp [Memory.cell?, found, cell])
  steps column family := by
    have cell := holds.steps id column family
    rw [Memory.cell?, found] at cell
    exact cell

theorem eq_nil_of_absent (holds : Stacks limit piles store)
    (absent : store.read id.text = none) : piles id = [] := by
  cases shape : piles id with
  | nil => rfl
  | cons step below =>
      have cell := holds.steps id (stepColumn (positionOn below)) rfl
      rw [shape, stackCell_cons, if_pos rfl, Memory.cell?, absent] at cell
      cases cell

theorem exists_of_ne_nil (holds : Stacks limit piles store) (occupied : piles id ≠ []) :
    ∃ record, store.read id.text = some record := by
  cases found : store.read id.text with
  | none => exact absurd (holds.eq_nil_of_absent found) occupied
  | some record => exact ⟨record, rfl⟩

theorem readable_eq (holds : Stacks limit piles store) {record : Record}
    (found : store.read id.text = some record) :
    ∃ snapshot, readable (store.read id.text) = some snapshot ∧
      snapshot.steps = stackSteps (piles id) := by
  obtain ⟨snapshot, read, steps⟩ := (holds.stacked found).ofRecord (holds.fits id)
  refine ⟨snapshot, ?_, steps⟩
  rw [found, readable, Option.bind_some, read]
  rfl

theorem read_eq (holds : Stacks limit piles store) {handle : Handle} {record : Record}
    (found : store.read handle.transaction.text = some record) :
    ∃ snapshot, handle.read store = .ok snapshot store ∧
      snapshot.steps = stackSteps (piles handle.transaction) := by
  obtain ⟨snapshot, read, steps⟩ :=
    (holds.stacked found).ofRecord (holds.fits handle.transaction)
  refine ⟨snapshot, ?_, steps⟩
  unfold Handle.read
  rw [bind_of_ok (find_of_ofRecord found read)]
  rfl

/-! ## Submitting -/

private theorem submit_of_steps (holds : Stacks limit piles store) {later : Id → List Bytes}
    (steps : ∀ (other : Id) (column : Column), column.family = stepFamily →
      (store.submit (Edit.mutation id edits)).2.cell? other.text column =
        stackCell (later other) column)
    (within : ∀ other, (later other).length ≤ limit.toNat) :
    Stacks limit later (store.submit (Edit.mutation id edits)).2 where
  filed := holds.filed.submit _
  reservation other bytes cell := by
    rcases Edit.reservation_submit store id edits other.text with same | none | ⟨made, _, put⟩
    · exact holds.reservation other bytes (same.symm.trans cell)
    · cases none.symm.trans cell
    · exact ⟨made, Option.some.inj (cell.symm.trans put)⟩
  steps := steps
  within := within

theorem submit (holds : Stacks limit piles store) {stack : List Bytes}
    (onStack : ∀ column : Column, column.family = stepFamily →
      (Edit.mutation id edits).writes.foldl (Write.onCell column) (stackCell (piles id) column) =
        stackCell stack column)
    (fits : stack.length ≤ limit.toNat) :
    Stacks limit (stacksAfter piles store id edits stack)
      (store.submit (Edit.mutation id edits)).2 := by
  unfold stacksAfter
  refine holds.submit_of_steps (fun other column family => ?_) fun other => ?_
  · rw [Memory.cell?_submit]
    cases store.lands (Edit.mutation id edits) with
    | false => simpa using holds.steps other column family
    | true =>
        by_cases same : other = id
        · subst same
          have cell := onStack column family
          rw [← holds.steps other column family] at cell
          have row : (Edit.mutation other edits).row = other.text := rfl
          simpa [setStack, row] using cell
        · have rows : other.text ≠ (Edit.mutation id edits).row :=
            fun equal => same (Id.text_injective equal)
          simpa [rows, setStack, same] using holds.steps other column family
  · split
    · unfold setStack
      split
      · exact fits
      · exact holds.within other
    · exact holds.within other

theorem submit_of_leavesSteps (holds : Stacks limit piles store)
    (leaves : edits.any Edit.changesSteps = false) :
    Stacks limit piles (store.submit (Edit.mutation id edits)).2 := by
  refine holds.submit_of_steps (fun other column family => ?_) holds.within
  rw [Edit.step_submit leaves family]
  exact holds.steps other column family

end Stacks

/-! ## Settled edits of a handle -/

/-- What becomes of edits that have to be accepted, if nothing about them stays hidden. -/
def Handle.acted (handle : Handle) (act : Act) (edits : List Edit) (store : Memory) :
    EStateM.Result Error Memory Unit :=
  let later := (store.submit (Edit.mutation handle.transaction edits)).2
  if store.lands (Edit.mutation handle.transaction edits) then .ok () later
  else .error (.refused (.actNotAccepted handle.transaction act .rejected)) later

/-- Edits are accepted exactly if they land, provided the verifier finds that out. -/
private theorem expect_settled {handle : Handle} {store : Memory} {edits : List Edit}
    {verifier : Option Snapshot → Bool} (act : Act)
    (writes : (Edit.mutation handle.transaction edits).hasWrites = true)
    (truthful : verifier (readable ((store.submit (Edit.mutation handle.transaction edits)).2.read
        handle.transaction.text)) =
      store.lands (Edit.mutation handle.transaction edits)) :
    (do
      let settled ← Edit.settle handle.transaction edits verifier
      handle.expectAccepted act settled.outcome : StoreStep Memory Unit) store =
      handle.acted act edits store := by
  have seen : verifier (handle.transaction.snapshot?
      (store.submit (Edit.mutation handle.transaction edits)).2) =
      store.lands (Edit.mutation handle.transaction edits) := truthful
  rw [handle.settled_eq act edits writes, seen, Memory.confirms_lands]
  rfl

theorem Handle.nextPosition_eq {limit : UInt32} {snapshot : Snapshot} {stack : List Bytes}
    (steps : snapshot.steps = stackSteps stack) :
    Handle.nextPosition limit snapshot =
      if limit.toNat ≤ stack.length then none else some (positionOn stack) := by
  unfold Handle.nextPosition
  rw [topPosition_eq steps, steps, length_stackSteps]
  by_cases full : limit.toNat ≤ stack.length
  · rw [if_pos full, if_pos full]
  · rw [if_neg full, if_neg full]
    cases stack with
    | nil => rfl
    | cons top below =>
        have fits : Fits (top :: below) :=
          Nat.le_of_lt (Nat.lt_of_lt_of_le (Nat.lt_of_not_le full)
            (Nat.le_of_lt_succ limit.toNat_lt))
        have last : positionOn below ≠ lastPosition := by
          intro same
          have position := toNat_positionOn fits
          have greatest : lastPosition.toNat = 4294967295 := rfl
          have bound := limit.toNat_lt
          rw [same, List.length_cons] at *
          omega
        simp [stackSteps, last, positionOn_cons]

namespace Stacks

variable {limit : UInt32} {piles : Id → List Bytes} {store : Memory} {handle : Handle}
  {record : Record}

/-- Where edits do not land the transaction reads as it did. -/
private theorem readable_of_missed (holds : Stacks limit piles store) {edits : List Edit}
    (found : store.read handle.transaction.text = some record)
    (missed : store.lands (Edit.mutation handle.transaction edits) = false) :
    ∃ snapshot, readable ((store.submit (Edit.mutation handle.transaction edits)).2.read
        handle.transaction.text) = some snapshot ∧
      snapshot.steps = stackSteps (piles handle.transaction) := by
  rw [Memory.read_of_missed missed]
  exact holds.readable_eq found

/-! ## Pushes -/

def pushEdits (handle : Handle) (step : Bytes) (below : List Bytes) : List Edit :=
  handle.guarded [.requireStatus [.new, .inProgress], .putStep (positionOn below) step]

theorem submit_push (holds : Stacks limit piles store) (handle : Handle) (step : Bytes)
    (room : (piles handle.transaction).length < limit.toNat) :
    Stacks limit
      (stacksAfter piles store handle.transaction
        (pushEdits handle step (piles handle.transaction))
        (step :: piles handle.transaction))
      (store.submit (Edit.mutation handle.transaction
        (pushEdits handle step (piles handle.transaction)))).2 :=
  holds.submit (fun column _ => (stackCell_cons step _ column).symm) room

private theorem push_verified (holds : Stacks limit piles store) (step : Bytes)
    (found : store.read handle.transaction.text = some record)
    (room : (piles handle.transaction).length < limit.toNat)
    (fits : Fits (step :: piles handle.transaction)) :
    (readable ((store.submit (Edit.mutation handle.transaction
        (pushEdits handle step (piles handle.transaction)))).2.read
          handle.transaction.text)).any
        (·.steps.any (·.1 = positionOn (piles handle.transaction))) =
      store.lands (Edit.mutation handle.transaction
        (pushEdits handle step (piles handle.transaction))) := by
  have later := holds.submit_push handle step room
  cases landed : store.lands (Edit.mutation handle.transaction
      (pushEdits handle step (piles handle.transaction))) with
  | true =>
      rw [stacksAfter, landed, if_pos rfl] at later
      have top : setStack piles handle.transaction (step :: piles handle.transaction)
          handle.transaction = step :: piles handle.transaction := if_pos rfl
      obtain ⟨written, present⟩ := later.exists_of_ne_nil (top ▸ List.cons_ne_nil _ _)
      obtain ⟨snapshot, reads, steps⟩ := later.readable_eq present
      rw [top] at steps
      simp [reads, steps, stackSteps]
  | false =>
      obtain ⟨snapshot, reads, steps⟩ := holds.readable_of_missed found landed
      rw [reads, Option.any_some, steps]
      refine List.any_eq_false.mpr fun entry member => ?_
      simpa using ne_positionOn_of_mem fits member

/-- A push overflows on a full stack, and otherwise is accepted exactly if it lands. -/
theorem push_eq (holds : Stacks limit piles store) (step : Bytes)
    (found : store.read handle.transaction.text = some record) :
    handle.push limit step store =
      if limit.toNat ≤ (piles handle.transaction).length then
        .error (.stackOverflow handle.transaction.text limit) store
      else
        handle.acted (.push (positionOn (piles handle.transaction)))
          (pushEdits handle step (piles handle.transaction)) store := by
  obtain ⟨snapshot, read, steps⟩ := holds.read_eq found
  unfold Handle.push
  rw [bind_of_ok read, Handle.nextPosition_eq steps]
  by_cases full : limit.toNat ≤ (piles handle.transaction).length
  · simp only [if_pos full]
    rfl
  · simp only [if_neg full]
    have room := Nat.lt_of_not_le full
    have fits : Fits (step :: piles handle.transaction) :=
      Nat.le_trans room (Nat.le_of_lt_succ limit.toNat_lt)
    exact expect_settled _ rfl (push_verified holds step found room fits)

/-! ## Pops -/

def popEdits (handle : Handle) (below : List Bytes) : List Edit :=
  handle.guarded [.requireStatus [.failedInProgress, .successful], .deleteStep (positionOn below)]

theorem submit_pop (holds : Stacks limit piles store) {top : Bytes} {below : List Bytes}
    (shape : piles handle.transaction = top :: below) :
    Stacks limit (stacksAfter piles store handle.transaction (popEdits handle below) below)
      (store.submit (Edit.mutation handle.transaction (popEdits handle below))).2 := by
  have fits := holds.fits handle.transaction
  have within := holds.within handle.transaction
  rw [shape] at fits within
  refine holds.submit (fun column _ => ?_) (Nat.le_of_succ_le within)
  have deleted : (Edit.mutation handle.transaction (popEdits handle below)).writes.foldl
      (Write.onCell column) (stackCell (top :: below) column) =
      if stepColumn (positionOn below) = column then none
      else stackCell (top :: below) column := rfl
  rw [shape, deleted, stackCell_cons]
  by_cases same : stepColumn (positionOn below) = column
  · subst same
    rw [if_pos rfl, stackCell_positionOn fits]
  · rw [if_neg same, if_neg same]

private theorem exists_of_pop {below : List Bytes}
    (landed : store.lands (Edit.mutation handle.transaction (popEdits handle below)) = true) :
    ∃ record, (store.submit (Edit.mutation handle.transaction (popEdits handle below))).2.read
      handle.transaction.text = some record := by
  have asked : .oneOf statusColumn ([Status.failedInProgress, .successful].map
        fun status => Bytes.ofText status.text) ∈
      (Edit.mutation handle.transaction (popEdits handle below)).conditions := by
    simp [Edit.mutation, popEdits, Handle.guarded, Edit.conditions]
  have holds := Memory.holds_of_lands landed asked
  obtain ⟨status, found, _⟩ := (Option.any_eq_true _ _).mp holds
  have other : stepColumn (positionOn below) ≠ statusColumn := stepColumn_ne rfl _
  have kept : (store.submit (Edit.mutation handle.transaction
      (popEdits handle below))).2.cell? handle.transaction.text statusColumn = some status := by
    have row : (Edit.mutation handle.transaction (popEdits handle below)).row =
        handle.transaction.text := rfl
    have writes : (Edit.mutation handle.transaction (popEdits handle below)).writes =
        [.delete (stepColumn (positionOn below))] := rfl
    have cell : store.cell? handle.transaction.text statusColumn = some status := found
    rw [Memory.cell?_submit, if_pos ⟨row.symm, landed⟩, writes]
    simpa [Write.onCell, other] using cell
  obtain ⟨record, present, _⟩ := Option.bind_eq_some_iff.mp kept
  exact ⟨record, present⟩

private theorem pop_verified (holds : Stacks limit piles store) {top : Bytes}
    {below : List Bytes} (found : store.read handle.transaction.text = some record)
    (shape : piles handle.transaction = top :: below) :
    (readable ((store.submit (Edit.mutation handle.transaction
        (popEdits handle below))).2.read handle.transaction.text)).any
        (·.steps.all (·.1 ≠ positionOn below)) =
      store.lands (Edit.mutation handle.transaction (popEdits handle below)) := by
  have later := holds.submit_pop shape
  have fits := holds.fits handle.transaction
  rw [shape] at fits
  cases landed : store.lands (Edit.mutation handle.transaction (popEdits handle below)) with
  | true =>
      rw [stacksAfter, landed, if_pos rfl] at later
      obtain ⟨written, present⟩ := exists_of_pop landed
      obtain ⟨snapshot, reads, steps⟩ := later.readable_eq present
      have rest : setStack piles handle.transaction below handle.transaction = below := if_pos rfl
      rw [reads, Option.any_some, steps, rest]
      refine List.all_eq_true.mpr fun entry member => ?_
      simpa using ne_positionOn_of_mem fits member
  | false =>
      obtain ⟨snapshot, reads, steps⟩ := holds.readable_of_missed found landed
      rw [reads, Option.any_some, steps, shape]
      simp [stackSteps]

/-- A pop finds nothing on an empty stack, and otherwise is accepted exactly if it lands. -/
theorem pop_eq (holds : Stacks limit piles store)
    (found : store.read handle.transaction.text = some record) :
    handle.pop store =
      match piles handle.transaction with
      | [] => .error (.refused (.emptyStack handle.transaction)) store
      | _ :: below => handle.acted (.pop (positionOn below)) (popEdits handle below) store := by
  obtain ⟨snapshot, read, steps⟩ := holds.read_eq found
  unfold Handle.pop
  rw [bind_of_ok read, topPosition_eq steps]
  cases shape : piles handle.transaction with
  | nil => rfl
  | cons top below => exact expect_settled _ rfl (pop_verified holds found shape)

/-! ## Removal -/

def deleteEdits (handle : Handle) : List Edit :=
  handle.guarded [.requireStatus [.new, .submitted, .successful, .failed], .delete]

theorem submit_delete (holds : Stacks limit piles store) (handle : Handle) :
    Stacks limit (stacksAfter piles store handle.transaction (deleteEdits handle) [])
      (store.submit (Edit.mutation handle.transaction (deleteEdits handle))).2 :=
  holds.submit (fun _ _ => rfl) (Nat.zero_le _)

private theorem delete_verified (holds : Stacks limit piles store)
    (found : store.read handle.transaction.text = some record) :
    (readable ((store.submit (Edit.mutation handle.transaction
        (deleteEdits handle))).2.read handle.transaction.text)).isNone =
      store.lands (Edit.mutation handle.transaction (deleteEdits handle)) := by
  have row : (Edit.mutation handle.transaction (deleteEdits handle)).row =
      handle.transaction.text := rfl
  cases landed : store.lands (Edit.mutation handle.transaction (deleteEdits handle)) with
  | true =>
      have removed : (store.submit (Edit.mutation handle.transaction
          (deleteEdits handle))).2.read handle.transaction.text = none := by
        rw [Memory.read_submit, if_pos ⟨row.symm, landed⟩]
        rfl
      rw [removed]
      rfl
  | false =>
      obtain ⟨snapshot, reads, _⟩ := holds.readable_of_missed found landed
      rw [reads]
      rfl

/-- A removal is accepted exactly if it lands. -/
theorem delete_eq (holds : Stacks limit piles store)
    (found : store.read handle.transaction.text = some record) :
    handle.delete store = handle.acted .delete (deleteEdits handle) store :=
  expect_settled _ rfl (delete_verified holds found)

end Stacks

end GuardedRows.Tx
