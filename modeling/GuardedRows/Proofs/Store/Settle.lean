import GuardedRows.Proofs.Store.Memory
import GuardedRows.Proofs.Store.Moves
import GuardedRows.Proofs.Store.Sends
import GuardedRows.Store.Basic

/-!
# Attempts on a store in memory

A store in memory fails no attempt. A settled outcome is the told one if no fault waits, and
otherwise what the verifier makes of the row as it is afterwards.
-/

set_option autoImplicit false

namespace GuardedRows

def Memory.settled (store : Memory) (mutation : Mutation)
    (verifier : Option Record → Bool) : Outcome :=
  let holds :=
    if store.faults = [] then store.lands mutation
    else verifier ((store.submit mutation).2.read mutation.row)
  if holds then .accepted else .rejected

/-- Whether a mutation is taken to be accepted, given what can be seen afterwards. -/
def Memory.confirms (store : Memory) (mutation : Mutation) (seen : Bool) : Bool :=
  if store.faults = [] then store.lands mutation else seen

theorem Memory.confirms_lands (store : Memory) (mutation : Mutation) :
    store.confirms mutation (store.lands mutation) = store.lands mutation :=
  ite_self _

namespace Mutation

open StoreStep

variable {store : Memory} {mutation : Mutation}

theorem attempt_eq (writes : mutation.hasWrites = true) :
    mutation.attempt store = .ok (store.submit mutation).1 (store.submit mutation).2 := by
  unfold attempt
  rw [if_pos writes]
  rfl

theorem after_attempt (writes : mutation.hasWrites = true) (store : Memory) :
    (mutation.attempt).after store = (store.submit mutation).2 := by
  have sent : mutation.attempt store = _ := attempt_eq writes
  simp only [after, sent]

/-- Without writes nothing is sent. -/
theorem after_attempt_eq (mutation : Mutation) (store : Memory) :
    (mutation.attempt).after store =
      if mutation.hasWrites then (store.submit mutation).2 else store := by
  cases writes : mutation.hasWrites with
  | true => exact after_attempt writes store
  | false =>
      unfold attempt
      rw [writes]
      rfl

theorem enforce_eq (writes : mutation.hasWrites = true) :
    mutation.enforce store =
      if (store.submit mutation).1 = .accepted then .ok () (store.submit mutation).2
      else .error (.refused (.notAccepted mutation.row (store.submit mutation).1))
        (store.submit mutation).2 := by
  have sent : mutation.attempt store = _ := attempt_eq writes
  unfold enforce
  rw [bind_of_ok sent]
  cases (store.submit mutation).1 <;> rfl

theorem settle_eq (writes : mutation.hasWrites = true) (verifier : Option Record → Bool) :
    mutation.settle verifier store =
      .ok ⟨store.settled mutation verifier,
          if store.faults = [] then none
          else some ((store.submit mutation).2.read mutation.row)⟩
        (store.submit mutation).2 := by
  have sent : mutation.attempt store = _ := attempt_eq writes
  unfold settle
  rw [bind_of_ok sent, Memory.outcome_submit]
  by_cases told : store.faults = []
  · simp only [told, ↓reduceIte, Memory.settled]
    cases store.lands mutation <;> rfl
  · simp only [told, ↓reduceIte, Memory.settled]
    rfl

end Mutation

end GuardedRows
