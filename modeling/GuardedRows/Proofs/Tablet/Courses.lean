import GuardedRows.Proofs.Store.Watched
import GuardedRows.Proofs.Tablet.Reporting
import GuardedRows.Proofs.Tablet.Traces

/-!
# Courses of a batch

A course is what happens to a batch and to its store one turn after another: calls of the batch,
its closing, and what other clients and mishaps do to the store in between. An invariant that
grows with the submissions lasts along every course if reading, settling and sending keep it.
-/

set_option autoImplicit false

namespace GuardedRows.Tablet

open StoreStep Watched

/-- What a consumer was told, and the store as it was then. -/
structure Note where
  extent : Extent
  outcome : Outcome
  seen : Watched

def noting (effect : Extent → Outcome → Watched → Watched) : Consumer Watched Note :=
  fun extent outcome store => (⟨extent, outcome, store⟩, effect extent outcome store)

theorem reads_watched : Reads Later := ⟨read_moves, scan_moves⟩

namespace Batch

/-- What can happen to a batch and to its store. -/
inductive Turn where
  | call (event : Event)
  | close (order : Arrival)
  | outside (happening : Happening)

def turn (consumer : Consumer Watched Note) (batch : Batch Watched Note) :
    Turn → Batch Watched Note
  | .call event => perform consumer batch event
  | .close order => batch.after (close consumer order)
  | .outside happening => { batch with store := batch.store.undergo happening }

def turns (consumer : Consumer Watched Note) (batch : Batch Watched Note) (course : List Turn) :
    Batch Watched Note :=
  course.foldl (turn consumer) batch

theorem turns_append_cons (consumer : Consumer Watched Note) (batch : Batch Watched Note)
    (before after : List Turn) (happens : Turn) :
    turns consumer batch (before ++ happens :: after) =
      turns consumer (turn consumer (turns consumer batch before) happens) after :=
  List.foldl_append

/-- An invariant that may depend on what was submitted, and what has to be shown of it for it to
last whatever happens. -/
structure Lasting (known : List Extent → Invariant Watched Note)
    (consumer : Consumer Watched Note) : Prop where
  kept : ∀ submitted, (known submitted).Kept consumer
  undergoes : ∀ {submitted : List Extent} {store : Watched} (happening : Happening),
    (known submitted).store store → (known submitted).store (store.undergo happening)
  grows : ∀ submitted extent, (known submitted).Implies (known (submitted ++ [extent]))
  sends : ∀ {submitted : List Extent} {extent : Extent} {edits : List Edit}
    (validator : Validator) {answer : Except Error Outcome} {store later : Watched},
    extent ∉ submitted → (known submitted).store store →
    (RowStore.submit (Edit.mutation extent edits) : StoreStep Watched Outcome).outcome store =
      .ok answer later →
    (known (submitted ++ [extent])).store later ∧
      (known (submitted ++ [extent])).entry (extent, validator) ∧
      (known (submitted ++ [extent])).answer extent answer

def Known (known : List Extent → Invariant Watched Note) (batch : Batch Watched Note) : Prop :=
  (known batch.submitted).Holds batch.submitted batch

namespace Known

variable {known : List Extent → Invariant Watched Note} {consumer : Consumer Watched Note}
  {batch : Batch Watched Note}

theorem of_holds {submitted : List Extent} (holds : (known submitted).Holds submitted batch) :
    Known known batch := by
  unfold Known
  rw [holds.submitted]
  exact holds

theorem submit (holds : Known known batch) (lasting : Lasting known consumer) {extent : Extent}
    {edits : List Edit} (taken : refusal? batch.submitted extent edits = none) (deferred : Bool)
    (validator : Validator) :
    (known (batch.submitted ++ [extent])).Holds (batch.submitted ++ [extent])
      (batch.after (Batch.submit consumer deferred extent edits validator)) := by
  obtain ⟨answer, store, answered⟩ :=
    exists_outcome (RowStore.submit (Edit.mutation extent edits)) batch.store
  obtain ⟨_, fresh⟩ := refusal?_eq_none_iff.mp taken
  obtain ⟨stored, entry, fits⟩ := lasting.sends validator fresh holds.store answered
  have grown := holds.mono (lasting.grows batch.submitted extent)
  exact grown.submit (lasting.kept _) taken deferred answered stored entry fits

theorem turn (holds : Known known batch) (lasting : Lasting known consumer) (happens : Turn) :
    Known known (turn consumer batch happens) := by
  have kept := lasting.kept batch.submitted
  cases happens with
  | outside happening =>
      exact of_holds ⟨lasting.undergoes happening holds.store, holds.entries, holds.answers,
        holds.reports, rfl⟩
  | close order => exact of_holds (holds.close kept order)
  | call event =>
      cases event with
      | processReady => exact of_holds (holds.processReady kept)
      | arrive extent => exact of_holds (holds.arrive extent)
      | submit deferred extent edits validator =>
          cases refused : refusal? batch.submitted extent edits with
          | none => exact of_holds (submit holds lasting refused deferred validator)
          | some refusal =>
              have known : Event.refusal? batch.submitted
                (.submit deferred extent edits validator) = some refusal := refused
              change Known _ (perform consumer batch (.submit deferred extent edits validator))
              rw [perform_of_refused known]
              exact holds

theorem turns (holds : Known known batch) (lasting : Lasting known consumer)
    (course : List Turn) : Known known (turns consumer batch course) := by
  induction course generalizing batch with
  | nil => exact holds
  | cons happens rest ih => exact ih (holds.turn lasting happens)

end Known

end Batch

end GuardedRows.Tablet
