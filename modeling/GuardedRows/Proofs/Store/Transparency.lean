import GuardedRows.Proofs.Store.Sends
import GuardedRows.Proofs.Store.Settle

/-!
# Hidden outcomes

A settled operation comes out the same whether its outcome is told or hidden. If the mutation
was applied unseen, the operation is done as if it had been told so. If it was dropped unseen,
the operation fails, unless what it asks for was there already.
-/

set_option autoImplicit false

namespace GuardedRows

/-! ## The same store with nothing to hide -/

def Memory.told (store : Memory) : Memory := { store with faults := [] }

namespace Memory

variable {store : Memory} {mutation : Mutation}

theorem confirms_told (store : Memory) (mutation : Mutation) (seen : Bool) :
    store.told.confirms mutation seen = store.told.lands mutation :=
  if_pos rfl

theorem lands_told (store : Memory) (mutation : Mutation) :
    store.told.lands mutation = mutation.conditionsHold (store.read mutation.row) := by
  unfold lands told
  rfl

theorem lands_told_of_lands (landed : store.lands mutation = true) :
    store.told.lands mutation = true := by
  rw [lands_told]
  exact (Bool.and_eq_true_iff.mp landed).2

theorem lands_eq_told (kept : store.faults.head? ≠ some .dropped) :
    store.lands mutation = store.told.lands mutation := by
  rw [lands_told, lands]
  simp [kept]

theorem rows_submit_told (landed : store.lands mutation = true) :
    (store.told.submit mutation).2.rows = (store.submit mutation).2.rows := by
  rw [rows_submit, rows_submit, if_pos landed, if_pos (lands_told_of_lands landed)]
  have same : store.told.read mutation.row = store.read mutation.row := rfl
  rw [same]
  cases mutation.applyTo (store.read mutation.row) <;> rfl

end Memory

/-! ## Steps that come out the same -/

/-- The outcome of a step does not depend on what the store hides. -/
structure StoreStep.Transparent {α : Type} (step : StoreStep Memory α) (store : Memory) :
    Prop where
  /-- It gives just what it would give if the outcome were told, provided it leaves the rows
  just so. -/
  gives : ∀ value, step.value? store = some value ↔
    step.value? store.told = some value ∧
      (step.after store).rows = (step.after store.told).rows
  fails : step.value? store = none → (step.after store).rows = store.rows
  applied : store.faults.head? = some .applied →
    step.value? store = step.value? store.told ∧
      (step.after store).rows = (step.after store.told).rows
  dropped : store.faults.head? = some .dropped →
    (step.after store.told).rows ≠ store.rows → step.value? store = none

namespace StoreStep

variable {α : Type} {step : StoreStep Memory α} {store : Memory}

/-- How a step comes out that sends one mutation and then takes it to be accepted or not. -/
structure SendsOne (step : StoreStep Memory α) (store : Memory) (mutation : Mutation)
    (accepted : Bool) (value : α) : Prop where
  value? : step.value? store = if accepted then some value else none
  after : step.after store = (store.submit mutation).2

theorem SendsOne.of_ite {mutation : Mutation} {accepted : Bool} {value : α} {error : Error}
    (ran : step store = if accepted then .ok value (store.submit mutation).2
      else .error error (store.submit mutation).2) :
    SendsOne step store mutation accepted value :=
  ⟨value?_of_ite ran, after_of_ite ran⟩

namespace Transparent

theorem of_same (same : step.value? store = step.value? store.told)
    (still : (step.after store).rows = (step.after store.told).rows)
    (fails : step.value? store = none → (step.after store).rows = store.rows)
    (dropped : store.faults.head? = some .dropped →
      (step.after store.told).rows = store.rows) : Transparent step store where
  gives value := by
    rw [same]
    exact ⟨fun given => ⟨given, still⟩, And.left⟩
  fails := fails
  applied _ := ⟨same, still⟩
  dropped first moved := absurd (dropped first) moved

theorem of_refused (refused : step.value? store = none)
    (rows : (step.after store).rows = store.rows)
    (moves : ∀ value, step.value? store.told = some value →
      (step.after store.told).rows ≠ store.rows)
    (applied : store.faults.head? = some .applied →
      step.value? store.told = none ∧ (step.after store.told).rows = store.rows) :
    Transparent step store where
  gives value := by
    rw [refused, rows]
    constructor
    · intro given
      cases given
    · rintro ⟨given, same⟩
      exact absurd same.symm (moves value given)
  fails _ := rows
  applied first := by
    obtain ⟨refusedTold, still⟩ := applied first
    exact ⟨refused.trans refusedTold.symm, rows.trans still.symm⟩
  dropped _ _ := refused

theorem of_error {error errorTold : Error} (failed : step store = .error error store)
    (failedTold : step store.told = .error errorTold store.told) : Transparent step store := by
  have after : (step.after store).rows = store.rows := by simp [StoreStep.after, failed]
  have afterTold : (step.after store.told).rows = store.rows := by
    rw [StoreStep.after, failedTold]
    rfl
  refine of_same ?_ (after.trans afterTold.symm) (fun _ => after) fun _ => afterTold
  simp [StoreStep.value?, failed, failedTold]

/-- A step is transparent if it accepts what lands, and what does not land only if it would
land without faults and change no row. -/
theorem of_sendsOne {mutation : Mutation} {accepted : Bool} {value : α}
    (sends : SendsOne step store mutation accepted value)
    (told : SendsOne step store.told mutation (store.told.lands mutation) value)
    (landed : store.lands mutation = true → accepted = true)
    (missed : store.lands mutation = false → (accepted = true ↔
      store.told.lands mutation = true ∧ (store.told.submit mutation).2.rows = store.rows)) :
    Transparent step store := by
  cases lands : store.lands mutation with
  | true =>
      have gave : step.value? store = some value := by
        rw [sends.value?, landed lands, if_pos rfl]
      have gaveTold : step.value? store.told = some value := by
        rw [told.value?, Memory.lands_told_of_lands lands, if_pos rfl]
      refine of_same (gave.trans gaveTold.symm) ?_ (fun none => ?_) fun first => ?_
      · rw [sends.after, told.after, Memory.rows_submit_told lands]
      · cases gave.symm.trans none
      · simp [Memory.lands, first] at lands
  | false =>
      have rows : (step.after store).rows = store.rows := by
        rw [sends.after, Memory.rows_of_missed lands]
      have decided := missed lands
      rw [← told.after] at decided
      cases accepts : accepted with
      | true =>
          obtain ⟨toldLands, toldRows⟩ := decided.mp accepts
          refine of_same ?_ (rows.trans toldRows.symm) (fun _ => rows) fun _ => toldRows
          rw [sends.value?, told.value?, accepts, toldLands]
      | false =>
          have refused : step.value? store = none := by
            rw [sends.value?, accepts, if_neg Bool.false_ne_true]
          refine of_refused refused rows (fun other given toldRows => ?_) fun first => ?_
          · have toldLands : store.told.lands mutation = true := by
              rw [told.value?] at given
              exact (Option.ite_none_right_eq_some.mp given).1
            rw [decided.mpr ⟨toldLands, toldRows⟩] at accepts
            cases accepts
          · have toldMissed : store.told.lands mutation = false := by
              rw [← Memory.lands_eq_told (by simp [first]), lands]
            rw [told.value?, told.after, Memory.rows_of_missed toldMissed, toldMissed]
            exact ⟨rfl, rfl⟩

/-- A step is transparent if it accepts just what lands and whatever lands moves rows. -/
theorem of_lands {mutation : Mutation} {value : α}
    (sends : SendsOne step store mutation (store.lands mutation) value)
    (told : SendsOne step store.told mutation (store.told.lands mutation) value)
    (moves : store.told.lands mutation = true →
      (store.told.submit mutation).2.rows ≠ store.rows) : Transparent step store := by
  refine of_sendsOne sends told id fun missed => ?_
  rw [missed]
  constructor
  · intro landed
    cases landed
  · rintro ⟨landed, same⟩
    exact absurd same (moves landed)

end Transparent

end StoreStep

end GuardedRows
