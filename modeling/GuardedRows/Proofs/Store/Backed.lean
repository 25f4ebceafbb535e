import GuardedRows.Proofs.Store.Sends
import GuardedRows.Store.Failing

/-!
# Stores that keep their rows in memory

A store may keep its rows in a store in memory and fail calls of its own accord. What the memory
takes then are submissions that got there, and a scan finds nothing but rows of the memory.
-/

set_option autoImplicit false

namespace GuardedRows

variable {σ : Type} {memory : σ → Memory} {allowed : Mutation → Prop}

def SameMemory (memory : σ → Memory) (before later : σ) : Prop := memory later = memory before

/-- What came to the memory between two states of a store are mutations of a kind. -/
def SentWithin (memory : σ → Memory) (allowed : Mutation → Prop) (before later : σ) : Prop :=
  Memory.Sent allowed (memory before) (memory later)

instance : Std.Refl (SentWithin memory allowed) := ⟨fun _ => .nothing⟩

instance : Trans (SentWithin memory allowed) (SentWithin memory allowed)
    (SentWithin memory allowed) :=
  ⟨fun first second => first.trans second⟩

theorem SameMemory.sentWithin {before later : σ} (same : SameMemory memory before later) :
    SentWithin memory allowed before later := by
  unfold SentWithin
  rw [same]
  exact .nothing

/-- The calls of a store reach a memory or leave it as it is. -/
structure Backed [RowStore σ] (memory : σ → Memory) : Prop where
  submit : ∀ mutation, Moves
    (fun before later => SameMemory memory before later ∨
      memory later = ((memory before).submit mutation).2)
    (RowStore.submit mutation : StoreStep σ Outcome)
  read : ∀ row, Moves (SameMemory memory) (RowStore.read row : StoreStep σ _)
  scan : ∀ range, Moves (SameMemory memory) (RowStore.scan range : StoreStep σ _)
  scanned : ∀ {range : ScanRange} {store later : σ} {rows : List (Except Error Record)},
    RowStore.scan range store = .ok rows later →
    ∀ record, .ok record ∈ rows → record ∈ (memory store).scan range

theorem Backed.sends [RowStore σ] (backed : Backed memory) {mutation : Mutation}
    (permitted : allowed mutation) :
    Moves (SentWithin memory allowed) (RowStore.submit mutation : StoreStep σ Outcome) := by
  apply (backed.submit mutation).mono
  intro before later taken
  cases taken with
  | inl same => exact same.sentWithin
  | inr submitted =>
      unfold SentWithin
      rw [submitted]
      exact .more .nothing permitted

/-! ## Stores in memory and stores that fail -/

theorem backed_memory : Backed (id : Memory → Memory) where
  submit mutation := .of_leads fun _ => .inr rfl
  read row := .of_leads fun _ => rfl
  scan range := .of_leads fun _ => rfl
  scanned := by
    intro range store later rows ran record member
    cases ran
    simpa using member

namespace Failing

theorem mem_of_mem_interrupt {α : Type} {after : Nat} {failure : Error}
    {rows : List (Except Error α)} {row : α} (member : .ok row ∈ interrupt after failure rows) :
    .ok row ∈ rows := by
  unfold interrupt at member
  split at member
  · exact member
  · cases List.mem_append.mp member with
    | inl front => exact List.mem_of_mem_take front
    | inr back =>
        cases List.mem_cons.mp back with
        | inl same => cases same
        | inr rest => exact List.mem_of_mem_drop rest

theorem backed : Backed (Failing.inner : Failing Memory → Memory) where
  submit mutation := .of_leads fun ⟨memory, submits, reads, scans, rowFailures⟩ => by
    cases submits with
    | nil => exact .inr rfl
    | cons failure rest => exact .inl rfl
  read row := .of_leads fun ⟨memory, submits, reads, scans, rowFailures⟩ => by
    cases reads <;> rfl
  scan range := .of_leads fun ⟨memory, submits, reads, scans, rowFailures⟩ => by
    cases scans <;> cases rowFailures <;> rfl
  scanned := by
    rintro range ⟨memory, submits, reads, scans, rowFailures⟩ later rows ran record member
    cases scans with
    | cons failure rest => cases ran
    | nil =>
        cases rowFailures with
        | nil =>
            cases ran
            simpa using member
        | cons first rest =>
            cases ran
            simpa using mem_of_mem_interrupt member

end Failing

end GuardedRows
