import GuardedRows.Proofs.Store.Moves
import GuardedRows.Tablet.AvailabilityChange

/-!
# What a batch does to its store

Apart from its submissions, a batch only reads its store and lets the consumer at it. So where
reading, the consumer and the submissions lead along a relation, the whole batch does, whatever
is in flight and whether or not a call fails. A pass of a change of availability is such a
batch.
-/

set_option autoImplicit false

namespace GuardedRows.Tablet

open StoreStep

variable {σ ρ : Type} {relation : σ → σ → Prop}

def Consumer.Moves (relation : σ → σ → Prop) (consumer : Consumer σ ρ) : Prop :=
  ∀ extent outcome store, relation store (consumer extent outcome store).2

/-- A relation between stores, taken of the stores of two batches. -/
def Batch.OnStore (relation : σ → σ → Prop) (before later : Batch σ ρ) : Prop :=
  relation before.store later.store

instance [Std.Refl relation] : Std.Refl (Batch.OnStore relation : Batch σ ρ → Batch σ ρ → Prop) :=
  ⟨fun batch => Std.Refl.refl batch.store⟩

instance [Trans relation relation relation] :
    Trans (Batch.OnStore relation : Batch σ ρ → Batch σ ρ → Prop) (Batch.OnStore relation)
      (Batch.OnStore relation) :=
  ⟨fun first second => Trans.trans (r := relation) (s := relation) first second⟩

/-- Where a call of a batch leaves the batch, whether or not it fails. -/
def Batch.after {α : Type} (call : BatchStep σ ρ α) (batch : Batch σ ρ) : Batch σ ρ :=
  match call batch with
  | .ok _ later => later
  | .error _ later => later

theorem Batch.moved_after {α : Type} {call : BatchStep σ ρ α}
    (moves : Moves (Batch.OnStore relation) call) (batch : Batch σ ρ) :
    relation batch.store (batch.after call).store := by
  unfold Batch.after
  cases ran : call batch with
  | ok value later => exact moves.ok ran
  | error failure later => exact moves.error ran

variable [RowStore σ]

/-- Reading a store, row by row or by scanning it, leads along a relation. -/
structure Reads (relation : σ → σ → Prop) : Prop where
  read : ∀ row, Moves relation (RowStore.read row : StoreStep σ _)
  scan : ∀ range, Moves relation (RowStore.scan range : StoreStep σ _)

theorem find_moves [Std.Refl relation] [Trans relation relation relation]
    (reads : Reads relation) (extent : Extent) :
    Moves relation (find extent : StoreStep σ (Option Metadata)) := by
  refine .bind (reads.read _) fun current => ?_
  cases current with
  | none => exact .pure none
  | some record =>
      refine .bind ?_ fun tablet => .pure (some tablet)
      cases readRow (.ok record) with
      | ok tablet => exact .pure tablet
      | error failure => exact .throw failure

namespace Batch

/-! ## One submission -/

/-- A batch whose store has taken a mutation and given its answer. -/
def sent (batch : Batch σ ρ) (deferred : Bool) (extent : Extent) (validator : Validator)
    (answer : Except Error Outcome) (store : σ) : Batch σ ρ :=
  { batch with
    store
    submitted := batch.submitted ++ [extent]
    pending := batch.pending ++ [(extent, validator)]
    queue := batch.queue ++ [⟨extent, answer, !deferred⟩] }

/-- Why a submission is refused, if it is. -/
def refusal? (submitted : List Extent) (extent : Extent) (edits : List Edit) :
    Option Refusal :=
  if (Edit.mutation extent edits).hasWrites = false then some (.noTabletWrites extent)
  else if extent ∈ submitted then some (.repeatedTablet extent)
  else none

theorem refusal?_eq_none_iff {submitted : List Extent} {extent : Extent} {edits : List Edit} :
    refusal? submitted extent edits = none ↔
      (Edit.mutation extent edits).hasWrites = true ∧ extent ∉ submitted := by
  unfold refusal?
  split
  · next writes => simp [writes]
  · next writes =>
      split
      · next known => simp [known]
      · next fresh => simpa [fresh] using writes

theorem submit_eq_of_refused {batch : Batch σ ρ} {extent : Extent} {edits : List Edit}
    {refusal : Refusal} (refused : refusal? batch.submitted extent edits = some refusal)
    (consumer : Consumer σ ρ) (deferred : Bool) (validator : Validator) :
    submit consumer deferred extent edits validator batch =
      .error (.refused refusal) batch := by
  unfold refusal? at refused
  unfold submit
  cases writes : (Edit.mutation extent edits).hasWrites with
  | false =>
      simp only [writes, ↓reduceIte, Option.some.injEq] at refused
      subst refused
      rfl
  | true =>
      by_cases known : extent ∈ batch.submitted
      · simp only [writes, Bool.true_eq_false, ↓reduceIte, known, Option.some.injEq] at refused
        subst refused
        simp only [Bool.not_true, Bool.false_eq_true, ↓reduceIte, get_bind_apply,
          List.contains_iff_mem, known]
        rfl
      · simp [writes, known] at refused

theorem submit_eq_of_taken {batch : Batch σ ρ} {extent : Extent} {edits : List Edit}
    (taken : refusal? batch.submitted extent edits = none) (consumer : Consumer σ ρ)
    (deferred : Bool) (validator : Validator) {answer : Except Error Outcome} {store : σ}
    (answered : (RowStore.submit (Edit.mutation extent edits) : StoreStep σ Outcome).outcome
      batch.store = .ok answer store) :
    submit consumer deferred extent edits validator batch =
      processReady consumer (batch.sent deferred extent validator answer store) := by
  obtain ⟨writes, fresh⟩ := refusal?_eq_none_iff.mp taken
  have lifted : (lift (RowStore.submit (Edit.mutation extent edits)).outcome :
      BatchStep σ ρ _) { batch with
        submitted := batch.submitted ++ [extent]
        pending := batch.pending ++ [(extent, validator)] } =
      .ok answer { batch with
        store
        submitted := batch.submitted ++ [extent]
        pending := batch.pending ++ [(extent, validator)] } := by
    simp only [lift, answered]
  unfold submit
  simp only [writes, Bool.not_true, Bool.false_eq_true, ↓reduceIte, get_bind_apply,
    List.contains_iff_mem, fresh, modify_bind_apply]
  rw [bind_of_ok lifted]
  rfl

theorem abandon_eq_after (batch : Batch σ ρ) (consumer : Consumer σ ρ) (order : Arrival) :
    batch.abandon consumer order = batch.after (close consumer order) := by
  unfold abandon after
  cases close consumer order batch <;> rfl

omit [RowStore σ] in
/-- What each arrival keeps, the arrival of all answers keeps. -/
theorem arriveAll_keeps (kept : Batch σ ρ → Prop)
    (arrives : ∀ batch extent, kept batch → kept (batch.arrive extent)) {batch : Batch σ ρ}
    (start : kept batch) (order : Arrival) : kept (arriveAll order batch) := by
  have each : ∀ extents : List Extent,
      kept (extents.foldl (fun batch extent => batch.arrive extent) batch) := by
    intro extents
    induction extents generalizing batch with
    | nil => exact start
    | cons extent rest ih => exact ih (arrives batch extent start)
  cases order <;> exact each _

omit [RowStore σ] in
theorem exists_arriveAll (order : Arrival) (batch : Batch σ ρ) :
    ∃ queue waiting, arriveAll order batch = { batch with queue, waiting } := by
  refine arriveAll_keeps (fun later => ∃ queue waiting, later = { batch with queue, waiting })
    ?_ ⟨batch.queue, batch.waiting, rfl⟩ order
  rintro later extent ⟨queue, waiting, rfl⟩
  exact ⟨_, _, rfl⟩

/-! ## Relations between stores -/

omit [RowStore σ] in
theorem lift_moves {α : Type} {step : StoreStep σ α} (moves : Moves relation step) :
    Moves (OnStore relation) (lift step : BatchStep σ ρ α) := by
  apply Moves.of_leads
  intro batch
  have led := moves.leads batch.store
  unfold Leads at led ⊢
  unfold lift
  cases result : step batch.store with
  | ok value store | error failure store =>
      rw [result] at led
      exact led

section Handing

variable [Std.Refl relation]

omit [RowStore σ] in
theorem takePending_moves (extent : Extent) :
    Moves (OnStore relation) (takePending extent : BatchStep σ ρ Validator) := by
  apply Moves.of_leads
  intro batch
  unfold Leads takePending
  rw [get_bind_apply]
  cases batch.pending.find? (·.1 = extent) <;> exact Std.Refl.refl (r := relation) batch.store

variable [Trans relation relation relation] (reads : Reads relation)

include reads

theorem resolve_moves (extent : Extent) (validator : Validator)
    (answer : Except Error Outcome) :
    Moves relation (resolve extent validator answer : StoreStep σ Outcome) := by
  cases answer with
  | error failure => exact .bind (find_moves reads extent) fun current => .pure _
  | ok outcome =>
      cases outcome with
      | accepted => exact .pure _
      | rejected => exact .pure _
      | unknown => exact .bind (find_moves reads extent) fun current => .pure _

variable {consumer : Consumer σ ρ} (consumes : consumer.Moves relation)

include consumes

theorem process_moves (delivery : Delivery) :
    Moves (OnStore relation) (process consumer delivery) := by
  refine .bind (takePending_moves _) fun validator => ?_
  refine .bind (lift_moves (resolve_moves reads _ _ _)) fun outcome => ?_
  exact .modified fun batch => consumes _ outcome batch.store

theorem processEach_moves (deliveries : List Delivery) :
    Moves (OnStore relation) (processEach consumer deliveries) := by
  induction deliveries with
  | nil => exact .pure _
  | cons delivery rest ih =>
      unfold processEach
      refine .bind (.modified fun batch => Std.Refl.refl (r := relation) batch.store) fun _ => ?_
      cases delivery.arrived with
      | true => exact .bind (process_moves reads consumes delivery) fun _ => ih
      | false =>
          exact .bind (.modified fun batch => Std.Refl.refl (r := relation) batch.store)
            fun _ => ih

theorem processReady_moves : Moves (OnStore relation) (processReady consumer) :=
  .bind .get fun batch => processEach_moves reads consumes batch.queue

theorem submit_moves {extent : Extent} {edits : List Edit}
    (sends : Moves relation (RowStore.submit (Edit.mutation extent edits) : StoreStep σ Outcome))
    (deferred : Bool) (validator : Validator) :
    Moves (OnStore relation) (submit consumer deferred extent edits validator) := by
  have handed := processReady_moves reads consumes
  apply Moves.of_leads
  intro batch
  unfold Leads
  cases refused : refusal? batch.submitted extent edits with
  | some refusal =>
      rw [submit_eq_of_refused refused consumer]
      exact Std.Refl.refl (r := relation) batch.store
  | none =>
      obtain ⟨answer, store, answered⟩ := exists_outcome _ batch.store
      have taken := sends.outcome.ok answered
      have settled := handed.leads (batch.sent deferred extent validator answer store)
      unfold Leads at settled
      rw [submit_eq_of_taken refused consumer deferred validator answered]
      cases ran : processReady consumer (batch.sent deferred extent validator answer store) with
      | ok value later | error failure later =>
          rw [ran] at settled
          exact Trans.trans (r := relation) (s := relation) taken settled

theorem close_moves (order : Arrival) :
    Moves (OnStore relation) (close consumer order) := by
  refine .bind (.modified fun batch => ?_) fun _ => processReady_moves reads consumes
  obtain ⟨queue, waiting, arrived⟩ := exists_arriveAll order batch
  rw [OnStore, arrived]
  exact Std.Refl.refl batch.store

theorem abandon_moves (order : Arrival) (batch : Batch σ ρ) :
    relation batch.store (batch.abandon consumer order).store := by
  rw [abandon_eq_after]
  exact moved_after (close_moves reads consumes order) batch

theorem run_moves {work : BatchStep σ ρ Unit} (works : Moves (OnStore relation) work) :
    Moves relation (run consumer work) := by
  have closed := close_moves reads consumes .inOrder
  apply Moves.of_leads
  intro store
  have led := works.leads { store }
  unfold Leads at led ⊢
  unfold run
  cases worked : work { store } with
  | error failure batch =>
      rw [worked] at led
      exact Trans.trans (r := relation) (s := relation) led
        (abandon_moves reads consumes .inOrder batch)
  | ok value batch =>
      rw [worked] at led
      have ended := closed.leads batch
      unfold Leads at ended
      dsimp only
      cases finished : close consumer .inOrder batch with
      | ok value last | error failure last =>
          rw [finished] at ended
          exact Trans.trans (r := relation) (s := relation) led ended

end Handing

end Batch

namespace AvailabilityChange

variable [Std.Refl relation] [Trans relation relation relation] (reads : Reads relation)

include reads

theorem note_moves : Consumer.Moves relation (note : Consumer σ Outcome) := by
  intro extent outcome store
  have seen := (find_moves reads extent).outcome
  cases outcome with
  | accepted => exact Std.Refl.refl store
  | rejected | unknown =>
      unfold note
      obtain ⟨answer, later, found⟩ := exists_outcome (find extent) store
      simp only [found]
      exact seen.ok found

variable {change : AvailabilityChange}

/-- Of the scanned tablets only those matter that the visit may submit. -/
theorem visit_moves {tablets : List (Except Error Metadata)}
    (sends : ∀ tablet, .ok tablet ∈ tablets → change.endsBeforeScan tablet = none →
      change.beginsPastEnd tablet = false → Moves relation
        (RowStore.submit (Edit.mutation tablet.extent change.edits) : StoreStep σ Outcome)) :
    Moves (Batch.OnStore relation) (change.visit tablets : BatchStep σ Outcome Unit) := by
  induction tablets with
  | nil => exact .pure _
  | cons scanned rest ih =>
      have later := ih fun tablet member => sends tablet (List.mem_cons_of_mem scanned member)
      cases scanned with
      | error failure => exact .throw failure
      | ok tablet =>
          unfold visit
          cases reached : change.endsBeforeScan tablet with
          | some start => exact .throw _
          | none =>
              dsimp only
              split
              · exact .pure _
              · next within =>
                  split
                  · exact later
                  · have sent := sends tablet List.mem_cons_self reached (by simpa using within)
                    exact .bind (Batch.submit_moves reads (note_moves reads) sent _ _)
                      fun _ => later

variable (sends : ∀ extent, Moves relation
    (RowStore.submit (Edit.mutation extent change.edits) : StoreStep σ Outcome))

include sends

theorem pass_moves : Moves relation (change.pass : StoreStep σ (List Outcome)) := by
  refine .bind ?_ fun tablets => Batch.run_moves reads (note_moves reads)
    (visit_moves reads fun tablet _ _ _ => sends tablet.extent)
  exact .bind (reads.scan _) fun rows => .pure _

theorem isReady_moves (catalog : Catalog) (config : Config) (elapsed : Duration) :
    Moves relation (change.isReady catalog config elapsed : StoreStep σ UInt64) := by
  unfold isReady
  dsimp only
  split
  · exact .throw _
  · exact .bind (pass_moves reads sends) fun outcomes => .pure _

end AvailabilityChange

end GuardedRows.Tablet
