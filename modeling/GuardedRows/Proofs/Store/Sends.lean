import GuardedRows.Proofs.Store.Memory
import GuardedRows.Proofs.Store.Moves
import GuardedRows.Store.Basic

/-!
# What a step sends to a store in memory

Whatever a step reads and whether it fails, it changes a store only by the mutations it
submits. A step sends mutations of a kind if every submission it can come to is of that kind.
-/

set_option autoImplicit false

namespace GuardedRows

def StoreStep.after {α : Type} (step : StoreStep Memory α) (store : Memory) : Memory :=
  match step store with
  | .ok _ later => later
  | .error _ later => later

/-- What a step gives if it does not fail. -/
def StoreStep.value? {α : Type} (step : StoreStep Memory α) (store : Memory) : Option α :=
  match step store with
  | .ok value _ => some value
  | .error _ _ => none

theorem StoreStep.after_of_ite {α : Type} {step : StoreStep Memory α} {store later : Memory}
    {done : Prop} [Decidable done] {value : α} {error : Error}
    (ran : step store = if done then .ok value later else .error error later) :
    step.after store = later := by
  unfold after
  rw [ran]
  by_cases met : done
  · rw [if_pos met]
  · rw [if_neg met]

theorem StoreStep.value?_of_ite {α : Type} {step : StoreStep Memory α} {store later : Memory}
    {done : Prop} [Decidable done] {value : α} {error : Error}
    (ran : step store = if done then .ok value later else .error error later) :
    step.value? store = if done then some value else none := by
  unfold value?
  rw [ran]
  by_cases met : done
  · rw [if_pos met, if_pos met]
  · rw [if_neg met, if_neg met]

/-- What follows a step and changes nothing leaves the store as the step does. -/
theorem StoreStep.after_bind_of_still {α β : Type} {first : StoreStep Memory α}
    {next : α → StoreStep Memory β} (still : ∀ value store, (next value).after store = store)
    (store : Memory) : (first >>= next).after store = first.after store := by
  unfold after
  cases ran : first store with
  | error error later => rw [bind_of_error ran]
  | ok value later =>
      rw [bind_of_ok ran]
      exact still value later

/-- What follows a step and cannot fail gives a value just if the step does. -/
theorem StoreStep.value?_bind_pure {α β : Type} (first : StoreStep Memory α) (made : α → β)
    (store : Memory) :
    (first >>= fun value => Pure.pure (made value)).value? store =
      (first.value? store).map made := by
  unfold value?
  cases ran : first store with
  | error error later => rw [bind_of_error ran]; rfl
  | ok value later => rw [bind_of_ok ran]; rfl

theorem Leads.after {α : Type} {relation : Memory → Memory → Prop} {step : StoreStep Memory α}
    {store : Memory} (leads : Leads relation step store) : relation store (step.after store) := by
  unfold Leads at leads
  unfold StoreStep.after
  cases ran : step store with
  | ok value later | error failure later =>
      rw [ran] at leads
      exact leads

namespace Memory

inductive Sent (allowed : Mutation → Prop) (before : Memory) : Memory → Prop where
  | nothing : Sent allowed before before
  | more {between : Memory} {mutation : Mutation} :
      Sent allowed before between → allowed mutation →
      Sent allowed before (between.submit mutation).2

namespace Sent

variable {allowed : Mutation → Prop} {before between later : Memory}

theorem trans (first : Sent allowed before between) (second : Sent allowed between later) :
    Sent allowed before later := by
  induction second with
  | nothing => exact first
  | more _ permitted ih => exact .more ih permitted

theorem mono {wider : Mutation → Prop} (included : ∀ mutation, allowed mutation → wider mutation)
    (sent : Sent allowed before later) : Sent wider before later := by
  induction sent with
  | nothing => exact .nothing
  | more _ permitted ih => exact .more ih (included _ permitted)

end Sent

instance {allowed : Mutation → Prop} : Std.Refl (Sent allowed) :=
  ⟨fun _ => .nothing⟩

instance {allowed : Mutation → Prop} :
    Trans (Sent allowed) (Sent allowed) (Sent allowed) :=
  ⟨fun first second => first.trans second⟩

end Memory

namespace StoreStep

/-- Every mutation that a step submits is of a kind. -/
def Sends {α : Type} (allowed : Mutation → Prop) (step : StoreStep Memory α) : Prop :=
  ∀ store, Memory.Sent allowed store (step.after store)

theorem sent_after {α : Type} {allowed : Mutation → Prop} {step : StoreStep Memory α}
    (moves : Moves (Memory.Sent allowed) step) : Sends allowed step :=
  fun store => (moves.leads store).after

namespace Sends

variable {α β : Type} {allowed : Mutation → Prop}

theorem moves {step : StoreStep Memory α} (sends : Sends allowed step) :
    Moves (Memory.Sent allowed) step where
  ok {store later value} ran := by
    have sent := sends store
    simpa only [after, ran] using sent
  error {store later failure} ran := by
    have sent := sends store
    simpa only [after, ran] using sent

theorem pure (value : α) : Sends allowed (Pure.pure value : StoreStep Memory α) :=
  sent_after (.pure value)

theorem throw (error : Error) : Sends allowed (MonadExcept.throw error : StoreStep Memory α) :=
  sent_after (.throw error)

theorem ofExcept (value : Except Error α) : Sends allowed (StoreStep.ofExcept value) := by
  cases value with
  | ok value => exact pure value
  | error error => exact throw error

theorem read (row : String) : Sends allowed (RowStore.read row : StoreStep Memory _) :=
  fun _ => .nothing

theorem scan (range : ScanRange) : Sends allowed (RowStore.scan range : StoreStep Memory _) :=
  fun _ => .nothing

theorem submit {mutation : Mutation} (permitted : allowed mutation) :
    Sends allowed (RowStore.submit mutation : StoreStep Memory _) :=
  fun _ => .more .nothing permitted

theorem bind {first : StoreStep Memory α} {next : α → StoreStep Memory β}
    (head : Sends allowed first) (tail : ∀ value, Sends allowed (next value)) :
    Sends allowed (first >>= next) :=
  sent_after (head.moves.bind fun value => (tail value).moves)

theorem outcome {step : StoreStep Memory α} (sends : Sends allowed step) :
    Sends allowed step.outcome :=
  sent_after sends.moves.outcome

end Sends

end StoreStep

namespace Mutation

open StoreStep

variable {allowed : Mutation → Prop} {mutation : Mutation}

theorem attempt_sends (permitted : allowed mutation) :
    Sends allowed (mutation.attempt : StoreStep Memory Outcome) := by
  unfold attempt
  split
  · exact .submit permitted
  · exact .throw _

theorem settle_sends (permitted : allowed mutation) (verifier : Option Record → Bool) :
    Sends allowed (mutation.settle verifier : StoreStep Memory (Settlement Record)) := by
  refine .bind (attempt_sends permitted) fun outcome => ?_
  cases outcome with
  | accepted => exact .pure _
  | rejected => exact .pure _
  | unknown => exact .bind (.read _) fun _ => .pure _

end Mutation

end GuardedRows
