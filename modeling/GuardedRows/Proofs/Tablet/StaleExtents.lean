import GuardedRows.Proofs.Tablet.CompletionOrder
import GuardedRows.Proofs.Tablet.Courses

/-!
# Accepted reports and the extents they name

A mutation of a tablet asks for the previous end row, so an accepted outcome that the store tells
is about the tablet that was named. A hidden outcome is settled by reading the row, which the
tablets before and after a split or a merge share, and by the validator alone. So an accepted
report is about the named tablet in every run just if the validator asks for the previous end row
as the mutation does.
-/

set_option autoImplicit false

namespace GuardedRows.Tablet

open StoreStep Watched Batch

/-- The row of an extent is there with just the previous end row of the extent. -/
def Extent.Stands (extent : Extent) (store : Memory) : Prop :=
  (store.cell? extent.metadataRow previousRowColumn).bind (decodePreviousRow · |>.toOption) =
    some extent.previousEndRow

instance (extent : Extent) : DecidablePred extent.Stands :=
  fun _ => inferInstanceAs (Decidable (_ = _))

/-- The extent stood at some moment from `origin` on up to what is seen. -/
def Extent.StoodSince (extent : Extent) (origin seen : Watched) : Prop :=
  ∃ memory ∈ seen.moments.drop origin.past.length, extent.Stands memory

instance (extent : Extent) (origin seen : Watched) : Decidable (extent.StoodSince origin seen) :=
  inferInstanceAs (Decidable (∃ memory ∈ seen.moments.drop origin.past.length, _))

/-- The row of an extent reads as a tablet that the validator takes for mutated. -/
def Shows (extent : Extent) (validator : Validator) (store : Memory) : Prop :=
  ∃ tablet, lookUp store extent = .ok (some tablet) ∧ validator tablet = true

/-- What shows at the row of an extent is another tablet. -/
def Misleads (extent : Extent) (validator : Validator) (store : Memory) : Prop :=
  ∃ tablet, lookUp store extent = .ok (some tablet) ∧ validator tablet = true ∧
    tablet.extent.previousEndRow ≠ extent.previousEndRow

theorem Metadata.previousRow_of_ofRecord {record : Record} {tablet : Metadata}
    (read : ofRecord record = .ok tablet) :
    (record.get? previousRowColumn).bind (decodePreviousRow · |>.toOption) =
      some tablet.extent.previousEndRow := by
  obtain ⟨previous, stored, decoded⟩ := (ofRecord_eq_ok_iff.mp read).previousEndRow
  rw [Option.mem_def.mp stored, Option.bind_some, decoded]
  rfl

/-- A tablet that is read tells whether its extent stands. -/
theorem stands_iff {store : Memory} {extent : Extent} {tablet : Metadata}
    (read : lookUp store extent = .ok (some tablet)) :
    extent.Stands store ↔ tablet.extent.previousEndRow = extent.previousEndRow := by
  unfold lookUp at read
  unfold Extent.Stands Memory.cell?
  cases found : store.read extent.metadataRow with
  | none =>
      rw [found] at read
      cases read
  | some record =>
      rw [found] at read
      dsimp only at read
      cases parsed : Metadata.ofRecord record with
      | error malformed =>
          rw [parsed] at read
          cases read
      | ok shown =>
          rw [parsed] at read
          cases read
          rw [Option.bind_some, Metadata.previousRow_of_ofRecord parsed, Option.some.injEq]

/-- What becomes of the next mutation is not told. -/
def Hides (store : Watched) : Prop :=
  store.inner.submitFailures ≠ [] ∨ store.memory.faults ≠ []

/-- An answer that accepts is about an extent that stands. Nothing is hidden without need. -/
theorem submit_answer {store later : Watched} {extent : Extent} {edits : List Edit}
    {answer : Except Error Outcome}
    (answered : (RowStore.submit (Edit.mutation extent edits) : StoreStep Watched Outcome).outcome
      store = .ok answer later) :
    (answer = .ok .accepted → extent.Stands store.memory) ∧
      (¬Hides store → answer = .ok .accepted ∨ answer = .ok .rejected) := by
  rw [submit_eq] at answered
  cases failures : store.inner.submitFailures with
  | cons failure rest =>
      rw [failures] at answered
      cases answered
      have waits : Hides store := .inl fun none => List.cons_ne_nil _ _ (failures.symm.trans none)
      exact ⟨fun told => (nomatch told), fun told => absurd waits told⟩
  | nil =>
      rw [failures] at answered
      cases answered
      constructor
      · intro told
        have lands := Memory.lands_of_accepted (Except.ok.inj told)
        have cell : store.memory.cell? extent.metadataRow previousRowColumn =
            some (encodePreviousRow extent.previousEndRow) :=
          Condition.holds_equals.mp (Memory.holds_of_lands lands List.mem_cons_self)
        rw [Extent.Stands, cell, Option.bind_some, decodePreviousRow_encodePreviousRow]
        rfl
      · intro told
        have calm : store.memory.faults = [] :=
          Classical.not_not.mp fun waits => told (.inr waits)
        rw [Memory.outcome_submit, if_pos calm]
        split
        · exact .inl rfl
        · exact .inr rfl

theorem find_eq {store : Watched} (calm : store.inner.readFailures = []) (extent : Extent) :
    find extent store =
      StoreStep.ofExcept (lookUp store.memory extent) (store.become store.inner) := by
  have read := read_eq extent.metadataRow store
  rw [calm] at read
  unfold find lookUp
  rw [bind_of_ok read]
  cases store.memory.read extent.metadataRow with
  | none => rfl
  | some record =>
      simp only [readRow]
      cases ofReading (Metadata.ofRecord record) <;> rfl

theorem lookUp_of_find {store later : Watched} {extent : Extent} {current : Option Metadata}
    (found : find extent store = .ok current later) :
    lookUp later.memory extent = .ok current := by
  cases failures : store.inner.readFailures with
  | cons failure rest =>
      have read := read_eq extent.metadataRow store
      rw [failures] at read
      unfold find at found
      rw [bind_of_error read] at found
      cases found
  | nil =>
      rw [find_eq failures] at found
      cases looked : lookUp store.memory extent with
      | error failure =>
          rw [looked] at found
          cases found
      | ok shown =>
          rw [looked] at found
          cases found
          exact looked

/-- An outcome that was not told is what the validator says of the row as it is then. -/
theorem resolve_of_shows {store : Watched} {extent : Extent} {validator : Validator}
    (calm : store.inner.readFailures = []) (shown : Shows extent validator store.memory) :
    resolve extent validator (.ok .unknown) store = .ok .accepted (store.become store.inner) := by
  obtain ⟨tablet, looked, accepts⟩ := shown
  have found : find extent store = .ok (some tablet) (store.become store.inner) := by
    rw [find_eq calm, looked]
    rfl
  rw [resolve, bind_of_ok found, Option.any_some, accepts]
  rfl

theorem shows_of_resolve {store later : Watched} {extent : Extent} {validator : Validator}
    (settled : resolve extent validator (.ok .unknown) store = .ok .accepted later) :
    Shows extent validator later.memory := by
  rw [resolve] at settled
  cases found : find extent store with
  | error failure between =>
      rw [bind_of_error found] at settled
      cases settled
  | ok current between =>
      rw [bind_of_ok found] at settled
      obtain ⟨outcome, rfl⟩ := EStateM.Result.ok.inj settled
      have looked := lookUp_of_find found
      cases current with
      | none => cases outcome
      | some tablet =>
          refine ⟨tablet, looked, ?_⟩
          cases accepts : validator tablet with
          | true => rfl
          | false =>
              rw [Option.any_some, accepts] at outcome
              cases outcome

theorem accepted_of_resolve {store later : Watched} {extent : Extent} {validator : Validator}
    {answer : Except Error Outcome}
    (settled : Batch.resolve extent validator answer store = .ok .accepted later) :
    answer = .ok .accepted ∨
      ¬(answer = .ok .accepted ∨ answer = .ok .rejected) ∧ Shows extent validator later.memory := by
  cases answer with
  | error failure => exact .inr ⟨by simp, shows_of_resolve settled⟩
  | ok outcome =>
      cases outcome with
      | accepted => exact .inl rfl
      | rejected => cases settled
      | unknown => exact .inr ⟨by simp, shows_of_resolve settled⟩

namespace Batch

/-! ## Before the submission -/

variable {effect : Extent → Outcome → Watched → Watched}

/-- Nothing is known to the batch of a tablet that was not submitted. -/
def confined (start : Watched) (submitted : List Extent) : Invariant Watched Note where
  store := Later start
  entry kept := kept.1 ∈ submitted
  answer extent _ := extent ∈ submitted
  report note := note.extent ∈ submitted

theorem confined_empty (start : Watched) : Known (confined start) { store := start } where
  store := Std.Refl.refl start
  entries _ member := nomatch member
  answers _ member := nomatch member
  reports _ member := nomatch member
  submitted := rfl

theorem confined_lasting (consumes : (noting effect).Moves Later) (start : Watched) :
    Lasting (confined start) (noting effect) where
  kept submitted := {
    unread := fun course failed =>
      Later.trans course ((find_moves reads_watched _).error failed)
    settles := fun course _ submitted settled =>
      ⟨(Later.trans course ((resolve_moves reads_watched _ _ _).ok settled)).trans
        (consumes _ _ _), submitted⟩ }
  undergoes happening course := Later.trans course (later_undergo _ happening)
  grows submitted extent :=
    ⟨fun _ => id, fun _ => List.mem_append_left _, fun _ _ => List.mem_append_left _,
      fun _ => List.mem_append_left _⟩
  sends {submitted extent} _ _ _ _ _ _ course answered := by
    have here : extent ∈ submitted ++ [extent] :=
      List.mem_append_right _ (List.mem_singleton_self extent)
    exact ⟨Later.trans course ((Watched.submit_moves _).outcome.ok answered), here, here⟩

/-! ## After the submission -/

/-- What is known of a tablet since it was submitted: its answer is the one that the store gave
then, and an accepted report comes of that answer or of a reading that the validator took for
the mutation. -/
def tracked (origin : Watched) (extent : Extent) (validator : Validator)
    (submitted : List Extent) : Invariant Watched Note where
  store store := Later origin store ∧ extent ∈ submitted
  entry kept := kept.1 = extent → kept.2 = validator
  answer other answer := other = extent →
    (answer = .ok .accepted → extent.Stands origin.memory) ∧
      (¬Hides origin → answer = .ok .accepted ∨ answer = .ok .rejected)
  report note := note.extent = extent → note.outcome = .accepted →
    Later origin note.seen ∧
      (extent.Stands origin.memory ∨ Hides origin ∧ Shows extent validator note.seen.memory)

theorem tracked_lasting (consumes : (noting effect).Moves Later) (origin : Watched)
    (extent : Extent) (validator : Validator) :
    Lasting (tracked origin extent validator) (noting effect) where
  kept submitted := {
    unread := fun course failed =>
      ⟨Later.trans course.1 ((find_moves reads_watched _).error failed), course.2⟩
    settles := fun {other asked answer outcome store later} course entry fits settled => by
      have seen : Later origin later :=
        Later.trans course.1 ((resolve_moves reads_watched _ _ _).ok settled)
      refine ⟨⟨seen.trans (consumes _ _ _), course.2⟩, ?_⟩
      rintro (rfl : other = extent) (rfl : outcome = .accepted)
      have own : asked = validator := entry rfl
      subst own
      obtain ⟨stands, told⟩ := fits rfl
      rcases accepted_of_resolve settled with accepted | ⟨hidden, shown⟩
      · exact ⟨seen, .inl (stands accepted)⟩
      · exact ⟨seen, .inr ⟨Classical.not_not.mp fun calm => hidden (told calm), shown⟩⟩ }
  undergoes happening course := ⟨Later.trans course.1 (later_undergo _ happening), course.2⟩
  grows submitted other :=
    ⟨fun _ course => ⟨course.1, List.mem_append_left _ course.2⟩, fun _ => id, fun _ _ => id,
      fun _ => id⟩
  sends {submitted other} _ _ _ _ _ fresh course answered := by
    have different : other ≠ extent := by
      rintro rfl
      exact fresh course.2
    exact ⟨⟨Later.trans course.1 ((Watched.submit_moves _).outcome.ok answered),
      List.mem_append_left _ course.2⟩, fun same => absurd same different,
      fun same => absurd same different⟩

/-- From its submission on a tablet is tracked. -/
theorem tracked_of_submit (consumes : (noting effect).Moves Later) {start : Watched}
    {batch : Batch Watched Note} (holds : Known (confined start) batch) {extent : Extent}
    {edits : List Edit} (taken : refusal? batch.submitted extent edits = none) (deferred : Bool)
    (validator : Validator) :
    Known (tracked batch.store extent validator)
      (turn (noting effect) batch (.call (.submit deferred extent edits validator))) := by
  obtain ⟨answer, store, answered⟩ :=
    exists_outcome (RowStore.submit (Edit.mutation extent edits)) batch.store
  obtain ⟨_, fresh⟩ := refusal?_eq_none_iff.mp taken
  have other : ∀ known ∈ batch.submitted, known ≠ extent := fun known member same =>
    fresh (same ▸ member)
  have here : extent ∈ batch.submitted ++ [extent] :=
    List.mem_append_right _ (List.mem_singleton_self extent)
  have unseen : (tracked batch.store extent validator (batch.submitted ++ [extent])).Holds
      batch.submitted batch := by
    refine ⟨⟨Std.Refl.refl batch.store, here⟩, fun kept member same => ?_,
      fun sent member same => ?_, fun note member same => ?_, rfl⟩
    · exact absurd same (other _ (holds.entries kept member))
    · exact absurd same (other _ (holds.answers sent member))
    · exact absurd same (other _ (holds.reports note member))
  have kept := (tracked_lasting consumes batch.store extent validator).kept
  exact Known.of_holds (unseen.submit (kept _) taken deferred answered
    ⟨(Watched.submit_moves _).outcome.ok answered, here⟩ (fun _ => rfl)
    fun _ => submit_answer answered)

/-! ## Accepted reports -/

/-- A batch that holds nothing else hands over what is answered at once. -/
theorem reports_of_first {σ ρ : Type} [RowStore σ] {consumer : Consumer σ ρ} {extent : Extent}
    {edits : List Edit} {validator : Validator} {answer : Except Error Outcome}
    {outcome : Outcome} {store sent seen : σ} (taken : refusal? [] extent edits = none)
    (answered : (RowStore.submit (Edit.mutation extent edits) : StoreStep σ Outcome).outcome
      store = .ok answer sent)
    (settled : resolve extent validator answer sent = .ok outcome seen) :
    (({ store } : Batch σ ρ).after (submit consumer false extent edits validator)).reports =
      [(consumer extent outcome seen).1] := by
  let batch : Batch σ ρ := ({ store } : Batch σ ρ).sent false extent validator answer sent
  have kept : batch.pending.find? (·.1 = extent) = some (extent, validator) := by
    simp [batch, Batch.sent]
  have handed : process consumer ⟨extent, answer, true⟩ { batch with queue := [] } = .ok () _ :=
    process_eq_of_ok kept settled
  have called : submit consumer false extent edits validator { store } = .ok () _ :=
    (submit_eq_of_taken taken consumer false validator answered).trans (bind_of_ok handed _)
  rw [after, called]
  rfl

/-- A report of a run that tells of acceptance, and the store as it was when the mutation was
submitted. Other clients, mishaps and the consumer may come in between at any time. -/
inductive AcceptedReport (extent : Extent) (edits : List Edit) (validator : Validator) :
    Watched → Note → Prop where
  | of_run {effect : Extent → Outcome → Watched → Watched} {store : Failing Memory}
      {before after : List Turn} {deferred : Bool} {note : Note} :
      (noting effect).Moves Later → store.inner.Filed →
      refusal? (turns (noting effect) { store := ⟨store, []⟩ } before).submitted extent edits =
        none →
      note ∈ (turns (noting effect) { store := ⟨store, []⟩ }
        (before ++ .call (.submit deferred extent edits validator) :: after)).reports →
      note.extent = extent → note.outcome = .accepted →
      AcceptedReport extent edits validator
        (turns (noting effect) { store := ⟨store, []⟩ } before).store note

section Accepted

variable {extent : Extent} {edits : List Edit} {validator : Validator} {origin : Watched}
  {note : Note}

theorem AcceptedReport.hasWrites (accepted : AcceptedReport extent edits validator origin note) :
    (Edit.mutation extent edits).hasWrites = true := by
  obtain ⟨_, _, taken, _, _, _⟩ := accepted
  exact (refusal?_eq_none_iff.mp taken).1

theorem AcceptedReport.course (accepted : AcceptedReport extent edits validator origin note) :
    origin.memory.Filed ∧ Later origin note.seen ∧ (extent.Stands origin.memory ∨
      Hides origin ∧ Shows extent validator note.seen.memory) := by
  cases accepted with
  | @of_run effect store before after deferred _ consumes filed taken member own told =>
      have opened := (confined_empty ⟨store, []⟩).turns (confined_lasting consumes _) before
      have course : Later ⟨store, []⟩
          (turns (noting effect) { store := ⟨store, []⟩ } before).store := opened.store
      have known := (tracked_of_submit consumes opened taken deferred validator).turns
        (tracked_lasting consumes _ extent validator) after
      rw [turns_append_cons] at member
      exact ⟨course.filed filed, known.reports note member own told⟩

theorem AcceptedReport.filed (accepted : AcceptedReport extent edits validator origin note) :
    note.seen.memory.Filed :=
  accepted.course.2.1.filed accepted.course.1

theorem AcceptedReport.stood_or_misled
    (accepted : AcceptedReport extent edits validator origin note) :
    extent.StoodSince origin note.seen ∨
      Hides origin ∧ Misleads extent validator note.seen.memory := by
  obtain ⟨_, seen, stands | ⟨hidden, tablet, looked, accepts⟩⟩ := accepted.course
  · exact .inl ⟨_, seen.memory_mem.1, stands⟩
  by_cases same : tablet.extent.previousEndRow = extent.previousEndRow
  · exact .inl ⟨_, seen.memory_mem.2, (stands_iff looked).mpr same⟩
  · exact .inr ⟨hidden, tablet, looked, accepts, same⟩

/-- Where the outcome of its submission is hidden, an extent is reported as accepted if the
validator takes what can be read at its row for mutated, and nothing in the store has changed. -/
theorem exists_acceptedReport (writes : (Edit.mutation extent edits).hasWrites = true)
    {store : Memory} (filed : store.Filed) (shown : Shows extent validator store) :
    ∃ origin note, AcceptedReport extent edits validator origin note ∧
      (extent.StoodSince origin note.seen → extent.Stands store) := by
  let origin : Watched := ⟨{ inner := { store with faults := [.dropped] } }, []⟩
  let sent : Watched := origin.become { inner := { store with faults := [] } }
  let seen : Watched := sent.become sent.inner
  let consumer : Consumer Watched Note := noting fun _ _ store => store
  have consumes : consumer.Moves Later := fun _ _ store => Std.Refl.refl store
  have taken : refusal? ([] : List Extent) extent edits = none :=
    refusal?_eq_none_iff.mpr ⟨writes, List.not_mem_nil⟩
  have settled : resolve extent validator (.ok .unknown) sent = .ok .accepted seen :=
    resolve_of_shows rfl shown
  have reports : (turns consumer { store := origin }
      [.call (.submit false extent edits validator)]).reports = [⟨extent, .accepted, seen⟩] :=
    reports_of_first taken rfl settled
  refine ⟨origin, ⟨extent, .accepted, seen⟩, ?_, ?_⟩
  · exact @AcceptedReport.of_run extent edits validator _ origin.inner [] [] false _ consumes
      ⟨filed.row, filed.cell⟩ taken (reports ▸ List.mem_singleton_self _) rfl rfl
  · rintro ⟨memory, member, stands⟩
    have same : memory.rows = store.rows := by
      have known : memory = { store with faults := [.dropped] } ∨
          memory = { store with faults := [] } := by
        simpa [seen, sent, origin, Watched.moments, Watched.become, Watched.memory] using member
      rcases known with rfl | rfl <;> rfl
    rw [Extent.Stands, Memory.cell?, Memory.read, same] at stands
    exact stands

/-- An accepted report is about an extent that stood, unless its outcome was hidden and the
validator took another tablet for the mutated one. It always is just if the validator takes none
for it that is not. -/
theorem accepted_stood_iff (extent : Extent) (edits : List Edit) (validator : Validator) :
    (∀ origin note, AcceptedReport extent edits validator origin note →
      extent.StoodSince origin note.seen ∨
        Hides origin ∧ Misleads extent validator note.seen.memory) ∧
    ((∀ origin note, AcceptedReport extent edits validator origin note →
        extent.StoodSince origin note.seen) ↔
      ((Edit.mutation extent edits).hasWrites = true →
        ∀ store : Memory, store.Filed → ¬Misleads extent validator store)) := by
  have either : ∀ origin note, AcceptedReport extent edits validator origin note →
      extent.StoodSince origin note.seen ∨
        Hides origin ∧ Misleads extent validator note.seen.memory :=
    fun _ _ accepted => accepted.stood_or_misled
  refine ⟨either, fun stood writes store filed ⟨tablet, looked, accepts, different⟩ => ?_,
    fun heeds origin note accepted => ?_⟩
  · obtain ⟨origin, note, accepted, stands⟩ :=
      exists_acceptedReport writes filed ⟨tablet, looked, accepts⟩
    exact different ((stands_iff looked).mp (stands (stood origin note accepted)))
  · obtain stands | ⟨_, misled⟩ := either origin note accepted
    · exact stands
    · exact absurd misled (heeds accepted.hasWrites note.seen.memory accepted.filed)

end Accepted

/-- The first of two tablets is named with a previous end row that it never had, the store drops
the mutation, and the tablet has the availability already that it asks for. -/
theorem stale_accepted_twoTablets :
    let stale : Extent := ⟨⟨"t"⟩, some "m", some "a"⟩
    let origin : Watched := ⟨{ inner := twoTabletStore.addFault .dropped }, []⟩
    let reports := (turns (noting fun _ _ store => store) { store := origin }
      [.call (.submit false stale [.putAvailability .unhosted]
        (·.availability = some .unhosted))]).reports
    reports.map (fun note => (note.extent, note.outcome)) = [(stale, .accepted)] ∧
      ∀ note ∈ reports, ¬stale.StoodSince origin note.seen := by
  decide +kernel

end Batch

end GuardedRows.Tablet
