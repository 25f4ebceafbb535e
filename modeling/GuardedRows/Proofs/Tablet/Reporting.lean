import GuardedRows.Proofs.Store.Watched
import GuardedRows.Proofs.Tablet.Deliveries

/-!
# Every outcome is reported once

However the calls of a batch and the answers of its store come together, each tablet whose
submission reached the store is reported at most once, as accepted or rejected, and just once if
no tablet had to be read in vain and the batch closes. Refused submissions leave no trace.
-/

set_option autoImplicit false

namespace GuardedRows.Tablet

open StoreStep

theorem reads_logged {σ : Type} [RowStore σ] :
    Reads (Logged.SameLog : Logged σ → Logged σ → Prop) :=
  ⟨fun row => Logged.lift_moves (RowStore.read row),
    fun range => Logged.lift_moves (RowStore.scan range)⟩

namespace Batch

/-! ## Runs -/

variable {σ ρ : Type}

/-- What can happen to an open batch. -/
inductive Event where
  | submit (deferred : Bool) (extent : Extent) (edits : List Edit) (validator : Validator)
  | arrive (extent : Extent)
  | processReady

namespace Event

/-- Why an event is refused by a batch, if it is. -/
def refusal? (submitted : List Extent) : Event → Option Refusal
  | .submit _ extent edits _ => Batch.refusal? submitted extent edits
  | _ => none

/-- The submission that an event makes unless it is refused. -/
def submission (submitted : List Extent) : Event → List (Extent × List Edit)
  | .submit _ extent edits _ =>
      if (Batch.refusal? submitted extent edits).isNone then [(extent, edits)] else []
  | _ => []

variable [RowStore σ]

def call (consumer : Consumer σ ρ) : Event → BatchStep σ ρ Unit
  | .submit deferred extent edits validator => Batch.submit consumer deferred extent edits validator
  | .arrive extent => modify (Batch.arrive extent)
  | .processReady => Batch.processReady consumer

/-- How an event fails that is not refused. -/
def failure (consumer : Consumer σ ρ) (batch : Batch σ ρ) (event : Event) : List Error :=
  match event.refusal? batch.submitted, event.call consumer batch with
  | none, .error failure _ => [failure]
  | _, _ => []

end Event

def submissions (submitted : List Extent) : List Event → List (Extent × List Edit)
  | [] => []
  | event :: rest =>
      let made := event.submission submitted
      made ++ submissions (submitted ++ made.map Prod.fst) rest

variable [RowStore σ]

def perform (consumer : Consumer σ ρ) (batch : Batch σ ρ) (event : Event) : Batch σ ρ :=
  batch.after (event.call consumer)

def performAll (consumer : Consumer σ ρ) (batch : Batch σ ρ) (events : List Event) :
    Batch σ ρ :=
  events.foldl (perform consumer) batch

def failures (consumer : Consumer σ ρ) (batch : Batch σ ρ) : List Event → List Error
  | [] => []
  | event :: rest =>
      event.failure consumer batch ++ failures consumer (perform consumer batch event) rest

/-! ## One event -/

section Events

variable {consumer : Consumer σ ρ} {batch : Batch σ ρ} {event : Event} {refusal : Refusal}

theorem call_of_refused (refused : event.refusal? batch.submitted = some refusal) :
    event.call consumer batch = .error (.refused refusal) batch := by
  cases event with
  | submit deferred extent edits validator =>
      exact submit_eq_of_refused refused consumer deferred validator
  | arrive extent => cases refused
  | processReady => cases refused

theorem perform_of_refused (refused : event.refusal? batch.submitted = some refusal) :
    perform consumer batch event = batch := by
  simp only [perform, after, call_of_refused refused]

theorem perform_of_ok {later : Batch σ ρ} (ran : event.call consumer batch = .ok () later) :
    perform consumer batch event = later ∧ event.failure consumer batch = [] := by
  refine ⟨by simp only [perform, after, ran], ?_⟩
  unfold Event.failure
  rw [ran]
  split
  · next failed => cases failed
  · rfl

omit [RowStore σ] in
theorem submission_of_refused (refused : event.refusal? batch.submitted = some refusal) :
    event.submission batch.submitted = [] := by
  cases event with
  | submit deferred extent edits validator =>
      have known : Batch.refusal? batch.submitted extent edits = some refusal := refused
      simp [Event.submission, known]
  | arrive extent => rfl
  | processReady => rfl

end Events

/-- What a stretch of a run comes to: as many tablets more are lost as calls failed, each of
them because a tablet could not be read. -/
structure Ran (lost submitted : List Extent) (failed : List Error)
    (later : Batch σ (Extent × Outcome)) : Prop where
  balanced : ∃ more : List Extent, more.length = failed.length ∧
    Balanced [] (more ++ lost) later
  submitted : later.submitted = submitted
  unread : ∀ failure ∈ failed, ∃ (extent : Extent) (store seen : σ),
    find extent store = .error failure seen

section Balance

variable {batch : Batch σ (Extent × Outcome)} {lost : List Extent}

theorem Settles.ran {submitted : List Extent} {call : BatchStep σ (Extent × Outcome) Unit}
    (settles : Settles lost submitted (call batch)) :
    Ran lost submitted (match call batch with | .ok _ _ => [] | .error failure _ => [failure])
      (batch.after call) := by
  unfold after
  cases result : call batch with
  | ok value later =>
      rw [result] at settles
      cases settles with
      | ok balanced submitted =>
          exact ⟨⟨[], rfl, balanced⟩, submitted, fun _ member => nomatch member⟩
  | error failure later =>
      rw [result] at settles
      cases settles with
      | @error _ _ extent store seen balanced submitted unread =>
          refine ⟨⟨[extent], rfl, balanced⟩, submitted, fun other member => ?_⟩
          rw [List.mem_singleton.mp member]
          exact ⟨extent, store, seen, unread⟩

theorem Balanced.perform (balanced : Balanced [] lost batch) (effect : Extent → Outcome → σ → σ)
    (event : Event) :
    Ran lost (batch.submitted ++ (event.submission batch.submitted).map Prod.fst)
      (event.failure (recording effect) batch) (perform (recording effect) batch event) := by
  cases refused : event.refusal? batch.submitted with
  | some refusal =>
      rw [perform_of_refused refused, submission_of_refused refused]
      refine ⟨⟨[], by simp [Event.failure, refused], balanced⟩, by simp, ?_⟩
      simp [Event.failure, refused]
  | none =>
      have settles : Settles lost
          (batch.submitted ++ (event.submission batch.submitted).map Prod.fst)
          (event.call (recording effect) batch) := by
        cases event with
        | submit deferred extent edits validator =>
            have taken : Batch.refusal? batch.submitted extent edits = none := refused
            simpa [Event.submission, Event.call, taken] using
              balanced.submit taken effect deferred validator
        | arrive extent => exact .ok (balanced.arrive extent) (by simp [Event.submission, Batch.arrive])
        | processReady =>
            simpa [Event.submission, Event.call] using balanced.processReady effect
      have ran := settles.ran
      cases result : event.call (recording effect) batch with
      | ok value later => simpa [Event.failure, refused, result, Batch.perform] using ran
      | error failure later => simpa [Event.failure, refused, result, Batch.perform] using ran

theorem Balanced.performAll (balanced : Balanced [] lost batch)
    (effect : Extent → Outcome → σ → σ) (events : List Event) :
    Ran lost (batch.submitted ++ (submissions batch.submitted events).map Prod.fst)
      (failures (recording effect) batch events)
      (performAll (recording effect) batch events) := by
  induction events generalizing batch lost with
  | nil => exact ⟨⟨[], rfl, balanced⟩, by simp [submissions, Batch.performAll], by simp [failures]⟩
  | cons event rest ih =>
      obtain ⟨⟨more, count, between⟩, submitted, unread⟩ := balanced.perform effect event
      obtain ⟨⟨others, counted, later⟩, known, unreadLater⟩ := ih between
      refine ⟨⟨others ++ more, ?_, ?_⟩, ?_, ?_⟩
      · simp [failures, count, counted, Nat.add_comm]
      · rw [List.append_assoc]
        exact later
      · refine known.trans ?_
        rw [submitted]
        simp [submissions]
      · intro failure member
        rcases List.mem_append.mp member with member | member
        · exact unread failure member
        · exact unreadLater failure member

end Balance

/-! ## The log -/

/-- Does to the store behind the log what a consumer does. -/
def onInner (effect : Extent → Outcome → σ → σ) (extent : Extent) (outcome : Outcome)
    (store : Logged σ) : Logged σ :=
  { store with inner := effect extent outcome store.inner }

omit [RowStore σ] in
theorem onInner_moves (effect : Extent → Outcome → σ → σ) :
    (recording (onInner effect)).Moves Logged.SameLog :=
  fun _ _ _ => rfl

theorem log_perform (effect : Extent → Outcome → σ → σ)
    (batch : Batch (Logged σ) (Extent × Outcome)) (event : Event) :
    (perform (recording (onInner effect)) batch event).store.log = batch.store.log ++
      (event.submission batch.submitted).map fun made => Edit.mutation made.1 made.2 := by
  have handed : Moves (OnStore Logged.SameLog) (Batch.processReady (recording (onInner effect))) :=
    processReady_moves reads_logged (onInner_moves effect)
  cases refused : event.refusal? batch.submitted with
  | some refusal => simp [perform_of_refused refused, submission_of_refused refused]
  | none =>
      cases event with
      | submit deferred extent edits validator =>
          have taken : Batch.refusal? batch.submitted extent edits = none := refused
          obtain ⟨answer, store, answered⟩ :=
            exists_outcome (RowStore.submit (Edit.mutation extent edits)) batch.store
          have sent := submit_eq_of_taken taken (recording (onInner effect)) deferred validator answered
          have stepped : perform (recording (onInner effect)) batch
              (.submit deferred extent edits validator) =
                (batch.sent deferred extent validator answer store).after
                  (Batch.processReady (recording (onInner effect))) := by
            simp only [perform, after, Event.call, sent]
          have same : ((batch.sent deferred extent validator answer store).after
              (Batch.processReady (recording (onInner effect)))).store.log = store.log :=
            moved_after handed _
          rw [stepped, same, Logged.log_submit answered]
          simp [Event.submission, taken]
      | arrive extent => exact (List.append_nil _).symm
      | processReady =>
          have same : (batch.after (Batch.processReady (recording (onInner effect)))).store.log =
              batch.store.log := moved_after handed batch
          exact same.trans (List.append_nil _).symm

theorem log_performAll (effect : Extent → Outcome → σ → σ) {lost : List Extent}
    {batch : Batch (Logged σ) (Extent × Outcome)} (balanced : Balanced [] lost batch)
    (events : List Event) :
    (performAll (recording (onInner effect)) batch events).store.log = batch.store.log ++
      (submissions batch.submitted events).map fun made => Edit.mutation made.1 made.2 := by
  induction events generalizing batch lost with
  | nil => exact (List.append_nil _).symm
  | cons event rest ih =>
      obtain ⟨⟨more, _, between⟩, submitted, _⟩ := balanced.perform (onInner effect) event
      refine (ih between).trans ?_
      rw [log_perform, submitted]
      simp [submissions]

/-! ## Whole runs -/

theorem performAll_append (consumer : Consumer σ ρ) (batch : Batch σ ρ)
    (before after : List Event) :
    performAll consumer batch (before ++ after) =
      performAll consumer (performAll consumer batch before) after :=
  List.foldl_append

theorem performAll_of_refused {consumer : Consumer σ ρ} {batch : Batch σ ρ} {event : Event}
    {before : List Event} {refusal : Refusal}
    (refused : event.refusal? (performAll consumer batch before).submitted = some refusal)
    (after : List Event) :
    performAll consumer batch (before ++ event :: after) =
      performAll consumer batch (before ++ after) := by
  rw [performAll_append, performAll_append]
  exact congrArg (performAll consumer · after) (perform_of_refused refused)

/-- If a batch closes after a run in which nothing was lost, all its tablets were reported. -/
theorem Balanced.perm_of_close {batch later : Batch σ (Extent × Outcome)}
    (balanced : Balanced [] [] batch) (effect : Extent → Outcome → σ → σ) {order : Arrival}
    (closed : Batch.close (recording effect) order batch = .ok () later) :
    (later.reports.map Prod.fst).Perm batch.submitted := by
  obtain ⟨settles, emptied⟩ := balanced.close effect order
  rw [closed] at settles
  cases settles with
  | ok balanced submitted =>
      have settled := balanced.settled
      rw [emptied later closed, submitted] at settled
      exact settled

/-- A batch that nothing was submitted to. -/
def opened (store : σ) : Batch (Logged σ) (Extent × Outcome) := { store := ⟨store, []⟩ }

/-- In every run of a batch the deliveries in flight are those of the tablets it awaits, each
once, and a call that is not refused fails only because a tablet cannot be read. A tablet is
reported at most once, as accepted or rejected, and only if its submission reached the store; if
no call fails and the batch closes, every such tablet is reported. A refused submission leaves
no trace. -/
theorem reports_exactly_once (store : σ) (effect : Extent → Outcome → σ → σ)
    (events : List Event) :
    let consumer := recording (onInner effect)
    let batch := performAll consumer (opened store) events
    (batch.inFlight.Perm batch.awaited ∧ batch.awaited.Nodup ∧
      ∀ extent ∈ batch.awaited, extent ∈ batch.submitted) ∧
    (batch.submitted = (submissions [] events).map Prod.fst ∧
      batch.store.log =
        (submissions [] events).map fun made => Edit.mutation made.1 made.2) ∧
    (∀ failure ∈ failures consumer (opened store) events,
      ∃ (extent : Extent) (current seen : Logged σ),
        find extent current = .error failure seen) ∧
    ReportsOnce batch ∧
    (∀ order, ReportsOnce (batch.abandon consumer order) ∧
      (batch.abandon consumer order).submitted = batch.submitted ∧
      (batch.abandon consumer order).store.log = batch.store.log ∧
      (∀ failure later, close consumer order batch = .error failure later →
        ∃ (extent : Extent) (current seen : Logged σ),
          find extent current = .error failure seen) ∧
      ∀ later, failures consumer (opened store) events = [] →
        close consumer order batch = .ok () later →
        (later.reports.map Prod.fst).Perm batch.submitted) ∧
    ∀ before event after refusal, events = before ++ event :: after →
      event.refusal? (performAll consumer (opened store) before).submitted = some refusal →
      event.call consumer (performAll consumer (opened store) before) =
          .error (.refused refusal) (performAll consumer (opened store) before) ∧
        batch = performAll consumer (opened store) (before ++ after) := by
  intro consumer batch
  have start : Balanced [] [] (opened store) := .empty _
  obtain ⟨⟨lost, count, balanced⟩, submitted, unread⟩ := start.performAll (onInner effect) events
  rw [List.append_nil] at balanced
  refine ⟨⟨balanced.awaited, ?_, fun extent => balanced.mem_submitted⟩, ⟨submitted, ?_⟩, unread,
    balanced.reportsOnce, ?_, ?_⟩
  · exact (List.nodup_append.mp balanced.nodup).1
  · exact log_performAll effect start events
  · intro order
    rw [abandon_eq_after]
    have settles := (balanced.close (onInner effect) order).1
    obtain ⟨⟨_, _, closed⟩, known, failed⟩ := settles.ran
    refine ⟨closed.reportsOnce, known, ?_, ?_, ?_⟩
    · exact moved_after (close_moves reads_logged (onInner_moves effect) order) batch
    · intro failure later ran
      rw [ran] at failed
      exact failed failure List.mem_cons_self
    · intro later none ran
      rw [none, List.length_nil, List.length_eq_zero_iff] at count
      subst count
      exact balanced.perm_of_close (onInner effect) ran
  · rintro before event after refusal rfl refused
    exact ⟨call_of_refused refused, performAll_of_refused refused after⟩

end Batch

end GuardedRows.Tablet
