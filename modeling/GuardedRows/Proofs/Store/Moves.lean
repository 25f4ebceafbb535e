import GuardedRows.Store.Basic

/-!
# Where steps lead

A step leads from state to state along a relation if the state it leaves is related to the one
it started from, whether it fails or not. Steps in sequence do so if the relation is transitive.
-/

set_option autoImplicit false

namespace GuardedRows

/-! ## Steps in sequence

What the second of two steps starts from, given what the first one did.
-/

namespace StoreStep

variable {ε σ α β : Type} {state later : σ}

theorem bind_of_ok {first : EStateM ε σ α} {value : α}
    (done : first state = .ok value later) (next : α → EStateM ε σ β) :
    (first >>= next) state = next value later := by
  simp only [bind, EStateM.bind, done]

theorem bind_of_error {first : EStateM ε σ α} {error : ε}
    (failed : first state = .error error later) (next : α → EStateM ε σ β) :
    (first >>= next) state = .error error later := by
  simp only [bind, EStateM.bind, failed]

@[simp] theorem pure_apply (value : α) (state : σ) :
    (pure value : EStateM ε σ α) state = .ok value state := rfl

@[simp] theorem get_bind_apply (next : σ → EStateM ε σ β) (state : σ) :
    ((get : EStateM ε σ σ) >>= next) state = next state state := rfl

@[simp] theorem modify_bind_apply (change : σ → σ) (next : PUnit → EStateM ε σ β) (state : σ) :
    ((modify change : EStateM ε σ PUnit) >>= next) state = next ⟨⟩ (change state) := rfl

/-- A reading in parts reads if each part does. -/
theorem exists_of_bind {first : Except ε α} {next : α → Except ε β} {value : β}
    (read : first >>= next = .ok value) : ∃ part, first = .ok part ∧ next part = .ok value := by
  cases first with
  | error failure => cases read
  | ok part => exact ⟨part, rfl, read⟩

end StoreStep

/-! ## Steps along a relation -/

structure Moves {ε σ α : Type} (relation : σ → σ → Prop) (step : EStateM ε σ α) : Prop where
  ok : ∀ {state later : σ} {value : α}, step state = .ok value later → relation state later
  error : ∀ {state later : σ} {error : ε}, step state = .error error later →
    relation state later

/-- A step leads along a relation from one state. -/
def Leads {ε σ α : Type} (relation : σ → σ → Prop) (step : EStateM ε σ α) (state : σ) : Prop :=
  match step state with
  | .ok _ later | .error _ later => relation state later

namespace Moves

variable {ε σ α : Type} {relation : σ → σ → Prop} {step : EStateM ε σ α}

theorem leads (moves : Moves relation step) (state : σ) : Leads relation step state := by
  unfold Leads
  cases ran : step state with
  | ok value later => exact moves.ok ran
  | error failure later => exact moves.error ran

theorem of_leads (leads : ∀ state, Leads relation step state) : Moves relation step where
  ok {state later value} ran := by
    have reached := leads state
    rwa [Leads, ran] at reached
  error {state later failure} ran := by
    have reached := leads state
    rwa [Leads, ran] at reached

end Moves

namespace Leads

open StoreStep

variable {ε σ α β : Type} {relation : σ → σ → Prop} {state : σ}

theorem mono {wider : σ → σ → Prop} {step : EStateM ε σ α} (leads : Leads relation step state)
    (included : ∀ later, relation state later → wider state later) : Leads wider step state := by
  unfold Leads at leads ⊢
  cases ran : step state with
  | ok value later | error failure later =>
      rw [ran] at leads
      exact included later leads

/-- The second of two steps has to lead only from where the first one ends. -/
theorem bind [Trans relation relation relation] {first : EStateM ε σ α}
    {next : α → EStateM ε σ β} (head : Leads relation first state)
    (tail : ∀ value later, first state = .ok value later → Leads relation (next value) later) :
    Leads relation (first >>= next) state := by
  unfold Leads at head ⊢
  cases result : first state with
  | error failure later =>
      rw [result] at head
      rw [bind_of_error result]
      exact head
  | ok value later =>
      rw [result] at head
      rw [bind_of_ok result]
      have rest := tail value later result
      unfold Leads at rest
      cases ran : next value later with
      | ok made last | error failure last =>
          rw [ran] at rest
          exact Trans.trans (r := relation) (s := relation) head rest

end Leads

namespace Moves

variable {ε σ α β : Type} {relation : σ → σ → Prop}

theorem pure [Std.Refl relation] (value : α) :
    Moves relation (Pure.pure value : EStateM ε σ α) :=
  .of_leads fun state => Std.Refl.refl (r := relation) state

theorem throw [Std.Refl relation] (failure : ε) :
    Moves relation (MonadExcept.throw failure : EStateM ε σ α) :=
  .of_leads fun state => Std.Refl.refl (r := relation) state

theorem get [Std.Refl relation] : Moves relation (MonadState.get : EStateM ε σ σ) :=
  .of_leads fun state => Std.Refl.refl (r := relation) state

theorem modified {change : σ → σ} (changes : ∀ state, relation state (change state)) :
    Moves relation (modify change : EStateM ε σ PUnit) :=
  .of_leads changes

theorem mono {wider : σ → σ → Prop} {step : EStateM ε σ α} (moves : Moves relation step)
    (included : ∀ state later, relation state later → wider state later) : Moves wider step :=
  .of_leads fun state => (moves.leads state).mono (included state)

theorem bind [Trans relation relation relation] {first : EStateM ε σ α}
    {next : α → EStateM ε σ β} (head : Moves relation first)
    (tail : ∀ value, Moves relation (next value)) : Moves relation (first >>= next) :=
  .of_leads fun state => (head.leads state).bind fun value later _ => (tail value).leads later

theorem outcome {step : StoreStep σ α} (moves : Moves relation step) :
    Moves relation step.outcome := by
  apply of_leads
  intro store
  have led := moves.leads store
  unfold Leads at led ⊢
  unfold StoreStep.outcome
  cases result : step store with
  | ok value later | error failure later =>
      rw [result] at led
      exact led

end Moves

theorem StoreStep.exists_outcome {σ α : Type} (step : StoreStep σ α) (store : σ) :
    ∃ answer later, step.outcome store = .ok answer later := by
  unfold outcome
  cases step store with
  | ok value later => exact ⟨.ok value, later, rfl⟩
  | error error later => exact ⟨.error error, later, rfl⟩

end GuardedRows
