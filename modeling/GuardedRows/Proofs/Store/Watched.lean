import GuardedRows.Proofs.Store.Memory
import GuardedRows.Proofs.Store.Moves
import GuardedRows.Store.Failing

/-!
# Stores that keep what happened

A logged store keeps the mutations it was sent, whatever became of them. A watched store is
one in memory, with calls that can be made to fail, that keeps what it has been.
-/

set_option autoImplicit false

namespace GuardedRows

/-! ## Logged stores

Reading leaves the log as it is.
-/

/-- A store and the mutations that were submitted to it. -/
structure Logged (σ : Type) where
  inner : σ
  log : List Mutation := []

namespace Logged

variable {σ : Type}

def lift {α : Type} (step : StoreStep σ α) : StoreStep (Logged σ) α := fun store =>
  match step store.inner with
  | .ok value inner => .ok value { store with inner }
  | .error error inner => .error error { store with inner }

instance [RowStore σ] : RowStore (Logged σ) where
  submit mutation := fun store =>
    lift (RowStore.submit mutation) { store with log := store.log ++ [mutation] }
  read row := lift (RowStore.read row)
  scan range := lift (RowStore.scan range)

def SameLog (before later : Logged σ) : Prop := later.log = before.log

instance : Std.Refl (SameLog : Logged σ → Logged σ → Prop) := ⟨fun _ => rfl⟩

instance : Trans (SameLog : Logged σ → Logged σ → Prop) SameLog SameLog :=
  ⟨fun first second => Eq.trans second first⟩

theorem lift_moves {α : Type} (step : StoreStep σ α) : Moves SameLog (lift step) := by
  apply Moves.of_leads
  intro store
  unfold Leads lift
  cases step store.inner <;> rfl

variable [RowStore σ]

theorem log_submit {store later : Logged σ} {mutation : Mutation}
    {answer : Except Error Outcome}
    (answered : (RowStore.submit mutation : StoreStep (Logged σ) Outcome).outcome store =
      .ok answer later) : later.log = store.log ++ [mutation] := by
  have noted : (lift (RowStore.submit mutation)).outcome
      { store with log := store.log ++ [mutation] } = .ok answer later := answered
  exact (lift_moves (RowStore.submit mutation)).outcome.ok noted

end Logged

/-! ## Watched stores

Each call and everything that happens to the store from outside is a moment of its history,
and no moment is forgotten.
-/

structure Watched where
  inner : Failing Memory
  past : List Memory := []

/-- What other clients and mishaps do to a store. -/
inductive Happening where
  | mutation (mutation : Mutation)
  | fault (fault : Fault)
  | failure (call : StoreCall) (failure : Error)

namespace Watched

def memory (store : Watched) : Memory := store.inner.inner

/-- What the store has been, up to what it is. -/
def moments (store : Watched) : List Memory := store.past ++ [store.memory]

def become (store : Watched) (inner : Failing Memory) : Watched := ⟨inner, store.moments⟩

def lift {α : Type} (step : StoreStep (Failing Memory) α) : StoreStep Watched α := fun store =>
  match step store.inner with
  | .ok value inner => .ok value (store.become inner)
  | .error error inner => .error error (store.become inner)

instance : RowStore Watched where
  submit mutation := lift (RowStore.submit mutation)
  read row := lift (RowStore.read row)
  scan range := lift (RowStore.scan range)

def undergo (store : Watched) : Happening → Watched
  | .mutation mutation =>
      store.become { store.inner with inner := (store.memory.submit mutation).2 }
  | .fault fault => store.become { store.inner with inner := store.memory.addFault fault }
  | .failure call failure => store.become (store.inner.addFailure call failure)

/-! ## The course of a store -/

/-- A store later on: it has been all that it was before, and its rows are in their places if
they were. -/
structure Later (before later : Watched) : Prop where
  moments : before.moments <+: later.moments
  filed : before.memory.Filed → later.memory.Filed

instance : Std.Refl Later := ⟨fun _ => ⟨List.prefix_rfl, id⟩⟩

theorem Later.trans {before between later : Watched} (first : Later before between)
    (second : Later between later) : Later before later :=
  ⟨first.moments.trans second.moments, second.filed ∘ first.filed⟩

instance : Trans Later Later Later := ⟨Later.trans⟩

theorem later_become {store : Watched} {inner : Failing Memory}
    (filed : store.memory.Filed → inner.inner.Filed) : Later store (store.become inner) :=
  ⟨List.prefix_append store.moments [inner.inner], filed⟩

theorem later_undergo (store : Watched) (happening : Happening) :
    Later store (store.undergo happening) := by
  cases happening with
  | mutation mutation => exact later_become fun filed => filed.submit mutation
  | fault fault => exact later_become fun filed => filed.addFault fault
  | failure call failure =>
      refine later_become fun filed => ?_
      cases call <;> exact filed

/-- A moment and the present are among what a store has been since that moment. -/
theorem Later.memory_mem {before later : Watched} (course : Later before later) :
    before.memory ∈ later.moments.drop before.past.length ∧
      later.memory ∈ later.moments.drop before.past.length := by
  constructor
  · obtain ⟨more, moments⟩ := course.moments
    rw [← moments, Watched.moments, List.append_assoc, List.drop_left]
    exact List.mem_cons_self
  · have grown : before.past.length ≤ later.past.length := by
      simpa [Watched.moments] using course.moments.length_le
    rw [Watched.moments, List.drop_append_of_le_length grown]
    exact List.mem_append_right _ (List.mem_singleton_self _)

/-! ## Calls -/

theorem lift_moves {α : Type} {step : StoreStep (Failing Memory) α}
    (filed : ∀ store, match step store with
      | .ok _ later | .error _ later => store.inner.Filed → later.inner.Filed) :
    Moves Later (lift step) := by
  apply Moves.of_leads
  intro store
  have kept := filed store.inner
  unfold Leads lift
  cases result : step store.inner with
  | ok made inner | error failure inner =>
      rw [result] at kept
      exact later_become kept

theorem submit_eq (mutation : Mutation) (store : Watched) :
    (RowStore.submit mutation : StoreStep Watched Outcome).outcome store =
      match store.inner.submitFailures with
      | [] => .ok (.ok (store.memory.submit mutation).1)
          (store.become { store.inner with inner := (store.memory.submit mutation).2 })
      | failure :: submitFailures =>
          .ok (.error failure) (store.become { store.inner with submitFailures }) := by
  obtain ⟨⟨memory, submitFailures, readFailures, scanFailures, rowFailures⟩, past⟩ := store
  cases submitFailures <;> rfl

theorem read_eq (row : String) (store : Watched) :
    (RowStore.read row : StoreStep Watched (Option Record)) store =
      match store.inner.readFailures with
      | [] => .ok (store.memory.read row) (store.become store.inner)
      | failure :: readFailures =>
          .error failure (store.become { store.inner with readFailures }) := by
  obtain ⟨⟨memory, submitFailures, readFailures, scanFailures, rowFailures⟩, past⟩ := store
  cases readFailures <;> rfl

theorem submit_moves (mutation : Mutation) :
    Moves Later (RowStore.submit mutation : StoreStep Watched Outcome) := by
  apply lift_moves
  intro ⟨memory, submitFailures, readFailures, scanFailures, rowFailures⟩
  cases submitFailures with
  | nil => exact fun filed : memory.Filed => filed.submit mutation
  | cons failure rest => exact fun filed : memory.Filed => filed

theorem read_moves (row : String) :
    Moves Later (RowStore.read row : StoreStep Watched (Option Record)) := by
  apply lift_moves
  intro ⟨memory, submitFailures, readFailures, scanFailures, rowFailures⟩
  cases readFailures <;> exact fun filed : memory.Filed => filed

theorem scan_moves (range : ScanRange) :
    Moves Later (RowStore.scan range : StoreStep Watched (List (Except Error Record))) := by
  apply lift_moves
  intro ⟨memory, submitFailures, readFailures, scanFailures, rowFailures⟩
  cases scanFailures <;> cases rowFailures <;> exact fun filed : memory.Filed => filed

end Watched

end GuardedRows
