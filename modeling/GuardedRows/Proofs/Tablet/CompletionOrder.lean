import GuardedRows.Proofs.Tablet.Alteration
import GuardedRows.Proofs.Tablet.Reporting

/-!
# Completion order

A batch of mutations of different rows in a store in memory comes to the same store and reports
the same outcomes whichever answers are deferred and in whatever order they arrive: those of
submitting one mutation after another and settling each outcome at once. What settles an outcome
is the mutation's own row, and no other mutation of the batch touches it.
-/

set_option autoImplicit false

namespace GuardedRows.Tablet

open StoreStep

/-! ## One after another -/

structure Submission where
  extent : Extent
  edits : List Edit
  validator : Validator

namespace Submission

def mutation (submission : Submission) : Mutation :=
  Edit.mutation submission.extent submission.edits

/-- Submits mutations one after another, and settles each outcome before the next. -/
def oneByOne {σ : Type} [RowStore σ] : List Submission → StoreStep σ (List (Extent × Outcome))
  | [] => return []
  | submission :: rest => do
      let answer ← (RowStore.submit submission.mutation).outcome
      let outcome ← Batch.resolve submission.extent submission.validator answer
      return (submission.extent, outcome) :: (← oneByOne rest)

theorem oneByOne_cons {store between later : Memory} {submission : Submission}
    {rest : List Submission} {outcome : Outcome} {results : List (Extent × Outcome)}
    (submitted : (store.submit submission.mutation).2 = between)
    (resolved : Batch.resolve submission.extent submission.validator
      (.ok (store.submit submission.mutation).1) between = .ok outcome between)
    (ran : oneByOne rest between = .ok results later) :
    oneByOne (submission :: rest) store = .ok ((submission.extent, outcome) :: results) later := by
  have answered : (RowStore.submit submission.mutation : StoreStep Memory Outcome).outcome store =
      .ok (.ok (store.submit submission.mutation).1) between := by rw [← submitted]; rfl
  unfold oneByOne
  rw [bind_of_ok answered, bind_of_ok resolved, bind_of_ok ran]
  rfl

end Submission

/-! ## Rows that read -/

/-- A row is absent, or it reads as a tablet. -/
def Readable (store : Memory) (row : String) : Prop :=
  ∀ record ∈ store.read row, ∃ tablet, Metadata.ofRecord record = .ok tablet

section Reading

variable {store : Memory} {row : String} {extent : Extent} {validator : Validator}
  {answer : Except Error Outcome} {outcome : Outcome}

theorem exists_lookUp (readable : Readable store extent.metadataRow) :
    ∃ current, lookUp store extent = .ok current := by
  unfold lookUp
  cases found : store.read extent.metadataRow with
  | none => exact ⟨none, rfl⟩
  | some record =>
      obtain ⟨tablet, reads⟩ := readable record found
      exact ⟨some tablet, by simp only [reads]; rfl⟩

/-- The outcome that an answer settles to, as long as the tablet reads as it does. -/
def SettlesTo (store : Memory) (extent : Extent) (answer : Except Error Outcome)
    (validator : Validator) (outcome : Outcome) : Prop :=
  ∃ current, lookUp store extent = .ok current ∧ ∀ later, lookUp later extent = .ok current →
    Batch.resolve extent validator answer later = .ok outcome later

theorem exists_settlesTo (readable : Readable store extent.metadataRow)
    (answer : Except Error Outcome) (validator : Validator) :
    ∃ outcome, SettlesTo store extent answer validator outcome := by
  obtain ⟨current, known⟩ := exists_lookUp readable
  rcases Batch.resolve_cases Memory extent validator answer with ⟨outcome, _, told⟩ | asks
  · exact ⟨outcome, current, known, fun later _ => by rw [told]; rfl⟩
  · refine ⟨if current.any validator then .accepted else .rejected, current, known, ?_⟩
    intro later same
    have found : find extent later = .ok current later := by
      rw [find_eq_lookUp, same]
      rfl
    rw [asks, bind_of_ok found]
    rfl

theorem SettlesTo.resolve_eq (settles : SettlesTo store extent answer validator outcome) :
    Batch.resolve extent validator answer store = .ok outcome store := by
  obtain ⟨current, known, settled⟩ := settles
  exact settled store known

/-- Only the tablet's own row decides. -/
theorem SettlesTo.of_read {later : Memory}
    (settles : SettlesTo store extent answer validator outcome)
    (same : later.read extent.metadataRow = store.read extent.metadataRow) :
    SettlesTo later extent answer validator outcome := by
  obtain ⟨current, known, settled⟩ := settles
  refine ⟨current, ?_, settled⟩
  rw [← known, lookUp, lookUp, same]

theorem Keeps.readable {tablet : Metadata} (keeps : Keeps store tablet) (filed : store.Filed)
    (named : separator ∉ tablet.extent.table.text.toList) :
    Readable store tablet.extent.metadataRow := by
  intro record found
  obtain ⟨described, same, describes⟩ := keeps
  cases Option.mem_unique same found
  exact ⟨tablet, describes.ofRecord (filed.row _ record found) named⟩

theorem Manages.readable {mutation : Mutation} (manages : Manages mutation) (filed : store.Filed)
    (readable : Readable store row) : Readable (store.submit mutation).2 row := by
  intro record found
  cases before : store.read row with
  | none =>
      rw [manages.read_submit_eq_none before] at found
      cases found
  | some known =>
      have reads := readable known before
      have begun : known.get? previousRowColumn ≠ none := by
        obtain ⟨_, ⟨previous, stored, _⟩, _⟩ := Metadata.exists_ofRecord_iff.mp reads
        rw [Option.mem_def.mp stored]
        exact Option.some_ne_none previous
      obtain ⟨later, stored, altered⟩ := manages.read_submit filed before begun
      cases Option.mem_unique stored found
      exact altered.exists_ofRecord reads

end Reading

/-! ## A batch -/

/-- A consumer that only notes what it is told. -/
def recorder : Consumer Memory (Extent × Outcome) := recording fun _ _ store => store

namespace Batch

/-- Reports are among the results, and so is what each delivery in hand or in flight settles
to. -/
structure Settling (results : List (Extent × Outcome)) (hand : List Delivery)
    (batch : Batch Memory (Extent × Outcome)) : Prop where
  balanced : Balanced (hand.map Delivery.extent) [] batch
  reported : ∀ report ∈ batch.reports, report ∈ results
  flying : ∀ delivery ∈ hand ++ (batch.queue ++ batch.waiting), ∀ validator,
    (delivery.extent, validator) ∈ batch.pending →
    ∃ outcome, (delivery.extent, outcome) ∈ results ∧
      SettlesTo batch.store delivery.extent delivery.answer validator outcome

namespace Settling

variable {results : List (Extent × Outcome)} {batch : Batch Memory (Extent × Outcome)}
  {delivery : Delivery}

theorem process (settling : Settling results [delivery] batch) :
    ∃ later, process recorder delivery batch = .ok () later ∧ Settling results [] later ∧
      later.queue = batch.queue ∧ later.store = batch.store ∧
      later.submitted = batch.submitted := by
  obtain ⟨validator, kept⟩ := settling.balanced.exists_pending List.mem_cons_self
  obtain ⟨outcome, among, settles⟩ :=
    settling.flying delivery List.mem_cons_self validator (List.mem_of_find?_eq_some kept)
  have known := outcome_of_resolve settles.resolve_eq
  refine ⟨_, process_eq_of_ok kept settles.resolve_eq, ⟨?_, ?_, ?_⟩, rfl, rfl, rfl⟩
  · exact (settling.balanced.settling batch.store).2 outcome known
  · intro report member
    rcases List.mem_append.mp member with member | last
    · exact settling.reported report member
    · rw [List.mem_singleton.mp last]
      exact among
  · intro other member validator pending
    exact settling.flying other (List.mem_cons_of_mem delivery member) validator
      (List.mem_filter.mp pending).1

/-- Deliveries are taken in hand one at a time, and the others stay in flight meanwhile. -/
theorem processEach {queue : List Delivery} (settling : Settling results [] batch)
    (same : batch.queue = queue) :
    ∃ later, processEach recorder queue batch = .ok () later ∧ Settling results [] later ∧
      later.store = batch.store ∧ later.submitted = batch.submitted := by
  induction queue generalizing batch with
  | nil => exact ⟨batch, rfl, settling, rfl, rfl⟩
  | cons delivery rest ih =>
      obtain ⟨balanced, reported, flying⟩ := settling
      have ahead : ∀ other ∈ delivery :: (rest ++ batch.waiting),
          other ∈ [] ++ (batch.queue ++ batch.waiting) := by
        intro other member
        rw [same]
        exact member
      unfold Batch.processEach
      rw [modify_bind_apply]
      cases arrived : delivery.arrived with
      | true =>
          have hand : Settling results [delivery] { batch with queue := rest } :=
            ⟨balanced.take same, reported, fun other member => flying other (ahead other member)⟩
          obtain ⟨between, ran, settling, queue, store, submitted⟩ := hand.process
          obtain ⟨later, rest, settled, stored, known⟩ := ih settling queue
          simp only [↓reduceIte]
          rw [bind_of_ok ran]
          exact ⟨later, rest, settled, stored.trans store, known.trans submitted⟩
      | false =>
          have aside : Settling results []
              { batch with queue := rest, waiting := batch.waiting ++ [delivery] } := by
            refine ⟨balanced.setAside same, reported, fun other member => ?_⟩
            refine flying other (ahead other ?_)
            rw [List.nil_append, ← List.append_assoc] at member
            exact (List.perm_append_singleton delivery _).subset member
          simp only [Bool.false_eq_true, ↓reduceIte, modify_bind_apply]
          exact ih aside rfl

theorem arrive (settling : Settling results [] batch) (extent : Extent) :
    Settling results [] (batch.arrive extent) := by
  refine ⟨settling.balanced.arrive extent, settling.reported, fun delivery member => ?_⟩
  obtain ⟨before, among, own, same⟩ := exists_of_mem_arrive member
  rw [← own, ← same]
  exact settling.flying before among

theorem arriveAll (settling : Settling results [] batch) (order : Arrival) :
    Settling results [] (arriveAll order batch) :=
  arriveAll_keeps (Settling results []) (fun _ extent kept => kept.arrive extent) settling order

theorem sent (settling : Settling results [] batch) {submission : Submission}
    (apart : ∀ other ∈ batch.submitted, other.metadataRow ≠ submission.extent.metadataRow)
    {outcome : Outcome} {answer : Except Error Outcome}
    (settles : SettlesTo (batch.store.submit submission.mutation).2 submission.extent answer
      submission.validator outcome) (deferred : Bool) :
    Settling (results ++ [(submission.extent, outcome)]) []
      (batch.sent deferred submission.extent submission.validator answer
        (batch.store.submit submission.mutation).2) := by
  have fresh : submission.extent ∉ batch.submitted := fun known => apart _ known rfl
  refine ⟨settling.balanced.sent fresh deferred _ _ _, ?_, ?_⟩
  · intro report member
    exact List.mem_append_left _ (settling.reported report member)
  · have earlier : ∀ delivery ∈ batch.queue ++ batch.waiting, ∀ validator,
        (delivery.extent, validator) ∈
          batch.pending ++ [(submission.extent, submission.validator)] →
        ∃ outcome, (delivery.extent, outcome) ∈ results ∧
          SettlesTo (batch.store.submit submission.mutation).2 delivery.extent delivery.answer
            validator outcome := by
      intro delivery member validator pending
      have known : delivery.extent ∈ batch.submitted :=
        settling.balanced.mem_submitted
          (settling.balanced.awaited.subset (List.mem_map_of_mem member))
      rcases List.mem_append.mp pending with pending | last
      · obtain ⟨outcome, among, settles⟩ := settling.flying delivery member validator pending
        refine ⟨outcome, among, settles.of_read ?_⟩
        rw [Memory.read_submit, if_neg fun same => apart _ known same.1]
      · have same := (Prod.mk.inj (List.mem_singleton.mp last)).1
        exact absurd (same ▸ known) fresh
    intro delivery member validator pending
    have flying : delivery ∈ (batch.queue ++ [⟨submission.extent, answer, !deferred⟩]) ++
        batch.waiting := member
    rcases List.mem_append.mp flying with queued | waiting
    · rcases List.mem_append.mp queued with queued | last
      · obtain ⟨outcome, among, settles⟩ :=
          earlier delivery (List.mem_append_left _ queued) validator pending
        exact ⟨outcome, List.mem_append_left _ among, settles⟩
      · cases List.mem_singleton.mp last
        rcases List.mem_append.mp pending with pending | new
        · have known : submission.extent ∈ batch.awaited := List.mem_map_of_mem pending
          exact absurd (settling.balanced.mem_submitted known) fresh
        · cases List.mem_singleton.mp new
          exact ⟨outcome, List.mem_append_right _ List.mem_cons_self, settles⟩
    · obtain ⟨outcome, among, settles⟩ :=
        earlier delivery (List.mem_append_right _ waiting) validator pending
      exact ⟨outcome, List.mem_append_left _ among, settles⟩

theorem close (settling : Settling results [] batch) (order : Arrival) :
    ∃ closed, close recorder order batch = .ok () closed ∧ Settling results [] closed ∧
      closed.store = batch.store := by
  obtain ⟨queue, waiting, moved⟩ := exists_arriveAll order batch
  obtain ⟨closed, ran, settled, stored, _⟩ := (settling.arriveAll order).processEach rfl
  refine ⟨closed, ran, settled, stored.trans ?_⟩
  rw [moved]

end Settling

/-! ## Runs -/

/-- The submissions of an event. -/
def Event.asks : Event → List Submission
  | .submit _ extent edits validator => [⟨extent, edits, validator⟩]
  | _ => []

def asked (events : List Event) : List Submission := events.flatMap Event.asks

/-- Submissions a batch can still take: each writes something, and their rows read and differ
from one another and from the rows of what was submitted before. -/
structure Acceptable (store : Memory) (submitted : List Extent) (submissions : List Submission) :
    Prop where
  filed : store.Filed
  writes : ∀ submission ∈ submissions, submission.mutation.hasWrites = true
  distinct : (submitted ++ submissions.map Submission.extent).Pairwise
    fun left right => left.metadataRow ≠ right.metadataRow
  readable : ∀ submission ∈ submissions, Readable store submission.extent.metadataRow

namespace Acceptable

variable {store : Memory} {submitted : List Extent} {submission : Submission}
  {rest : List Submission}

theorem apart (acceptable : Acceptable store submitted (submission :: rest)) :
    ∀ other ∈ submitted, other.metadataRow ≠ submission.extent.metadataRow := by
  intro other member
  obtain ⟨_, _, apart⟩ := List.pairwise_append.mp acceptable.distinct
  exact apart other member _ List.mem_cons_self

theorem next (acceptable : Acceptable store submitted (submission :: rest)) :
    Acceptable (store.submit submission.mutation).2 (submitted ++ [submission.extent]) rest := by
  obtain ⟨filed, writes, distinct, readable⟩ := acceptable
  refine ⟨filed.submit _, fun other member => writes other (.tail _ member), ?_, ?_⟩
  · simpa using distinct
  · intro other member
    exact (Manages.edit submission.extent submission.edits).readable filed
      (readable other (.tail _ member))

end Acceptable

namespace Settling

variable {results : List (Extent × Outcome)} {batch : Batch Memory (Extent × Outcome)}

theorem submit (settling : Settling results [] batch) {submission : Submission}
    {rest : List Submission}
    (acceptable : Acceptable batch.store batch.submitted (submission :: rest))
    (deferred : Bool) :
    ∃ outcome later,
      Batch.resolve submission.extent submission.validator
          (.ok (batch.store.submit submission.mutation).1)
          (batch.store.submit submission.mutation).2 =
        .ok outcome (batch.store.submit submission.mutation).2 ∧
      Batch.submit recorder deferred submission.extent submission.edits submission.validator
        batch = .ok () later ∧
      Settling (results ++ [(submission.extent, outcome)]) [] later ∧
      later.store = (batch.store.submit submission.mutation).2 ∧
      later.submitted = batch.submitted ++ [submission.extent] := by
  have writes := acceptable.writes submission List.mem_cons_self
  have fresh : submission.extent ∉ batch.submitted := fun known =>
    acceptable.apart _ known rfl
  have taken : refusal? batch.submitted submission.extent submission.edits = none :=
    refusal?_eq_none_iff.mpr ⟨writes, fresh⟩
  have readable : Readable (batch.store.submit submission.mutation).2
      submission.extent.metadataRow :=
    (Manages.edit submission.extent submission.edits).readable acceptable.filed
      (acceptable.readable submission List.mem_cons_self)
  obtain ⟨outcome, settles⟩ := exists_settlesTo readable
    (.ok (batch.store.submit submission.mutation).1) submission.validator
  obtain ⟨later, ran, settled, stored, known⟩ :=
    (settling.sent acceptable.apart settles deferred).processEach rfl
  refine ⟨outcome, later, settles.resolve_eq, ?_, settled, stored, known⟩
  rw [submit_eq_of_taken taken recorder deferred submission.validator rfl]
  exact ran

/-- An event adds what its submission comes to on its own. -/
theorem perform (settling : Settling results [] batch) {event : Event} {rest : List Submission}
    (acceptable : Acceptable batch.store batch.submitted (event.asks ++ rest)) :
    ∃ made, event.failure recorder batch = [] ∧
      Settling (results ++ made) [] (perform recorder batch event) ∧
      Acceptable (Batch.perform recorder batch event).store
        (Batch.perform recorder batch event).submitted rest ∧
      (Batch.perform recorder batch event).submitted = batch.submitted ++ made.map Prod.fst ∧
      ∀ more later, Submission.oneByOne rest (Batch.perform recorder batch event).store =
        .ok more later →
        Submission.oneByOne (event.asks ++ rest) batch.store = .ok (made ++ more) later := by
  cases event with
  | submit deferred extent edits validator =>
      obtain ⟨outcome, later, resolved, ran, settled, stored, known⟩ :=
        settling.submit acceptable deferred
      obtain ⟨performed, failure⟩ := perform_of_ok
        (show (Event.submit deferred extent edits validator).call recorder batch = _ from ran)
      refine ⟨_, failure, performed ▸ settled, ?_, performed ▸ known, ?_⟩
      · rw [performed, stored, known]
        exact acceptable.next
      · intro more last rest
        rw [performed, stored] at rest
        exact Submission.oneByOne_cons rfl resolved rest
  | arrive extent =>
      obtain ⟨performed, failure⟩ := perform_of_ok
        (show (Event.arrive extent).call recorder batch = .ok () (batch.arrive extent) from rfl)
      rw [performed]
      exact ⟨[], failure, by simpa using settling.arrive extent, acceptable,
        (List.append_nil _).symm, fun more later ran => ran⟩
  | processReady =>
      obtain ⟨later, ran, settled, stored, known⟩ := settling.processEach rfl
      obtain ⟨performed, failure⟩ := perform_of_ok
        (show Event.processReady.call recorder batch = .ok () later from ran)
      rw [performed, stored, known]
      exact ⟨[], failure, by simpa using settled, acceptable, (List.append_nil _).symm,
        fun more later ran => ran⟩

theorem performAll (settling : Settling results [] batch) {events : List Event}
    (acceptable : Acceptable batch.store batch.submitted (asked events)) :
    ∃ more, failures recorder batch events = [] ∧
      Settling (results ++ more) [] (performAll recorder batch events) ∧
      (Batch.performAll recorder batch events).submitted =
        batch.submitted ++ more.map Prod.fst ∧
      Submission.oneByOne (asked events) batch.store =
        .ok more (Batch.performAll recorder batch events).store := by
  induction events generalizing batch results with
  | nil =>
      refine ⟨[], rfl, ?_, (List.append_nil _).symm, rfl⟩
      rw [List.append_nil]
      exact settling
  | cons event rest ih =>
      have front : Acceptable batch.store batch.submitted (event.asks ++ asked rest) := acceptable
      obtain ⟨made, failure, settled, left, known, alone⟩ := settling.perform front
      obtain ⟨more, failed, settled, others, ran⟩ := ih settled left
      refine ⟨made ++ more, ?_, ?_, ?_, ?_⟩
      · rw [failures, failure, failed]
        rfl
      · rw [← List.append_assoc]
        exact settled
      · refine others.trans ?_
        rw [known, List.map_append, List.append_assoc]
      · exact alone more _ ran

end Settling

/-- Entries that are among others with the same keys are all of them. -/
theorem perm_of_keys {κ α : Type} {entries others : List (κ × α)}
    (keys : (entries.map Prod.fst).Perm (others.map Prod.fst))
    (distinct : (others.map Prod.fst).Nodup) (among : ∀ entry ∈ entries, entry ∈ others) :
    entries.Perm others := by
  have apart := List.pairwise_map.mp distinct
  have nodup : entries.Nodup := (List.pairwise_map.mp (keys.nodup_iff.mpr distinct)).imp
    fun differ same => differ (congrArg Prod.fst same)
  have others_nodup : others.Nodup :=
    apart.imp fun differ same => differ (congrArg Prod.fst same)
  refine (List.perm_ext_iff_of_nodup nodup others_nodup).mpr fun entry => ⟨among entry, ?_⟩
  intro member
  have known : entry.1 ∈ entries.map Prod.fst :=
    keys.symm.subset (List.mem_map_of_mem member)
  obtain ⟨found, listed, same⟩ := List.mem_map.mp known
  rw [← eq_of_pairwise_ne apart (among found listed) member same]
  exact listed

/-- A batch of mutations of different rows that read comes to the same store and reports the same
outcomes whichever answers are deferred and in whatever order they arrive: as if the mutations
were submitted one after another and each outcome settled at once. -/
theorem completion_order_irrelevant {store : Memory} (built : store.Built)
    {submissions : List Submission}
    (writes : ∀ submission ∈ submissions, submission.mutation.hasWrites = true)
    (distinct : submissions.Pairwise fun left right =>
      left.extent.metadataRow ≠ right.extent.metadataRow)
    (readable : ∀ submission ∈ submissions, Readable store submission.extent.metadataRow) :
    ∃ results later, Submission.oneByOne submissions store = .ok results later ∧
      ∀ events order, asked events = submissions →
        failures recorder { store } events = [] ∧
        ∃ closed, close recorder order (performAll recorder { store } events) = .ok () closed ∧
          closed.store = later ∧ closed.reports.Perm results := by
  have start : Settling [] [] ({ store } : Batch Memory (Extent × Outcome)) :=
    ⟨.empty store, fun _ member => (nomatch member), fun _ member => (nomatch member)⟩
  have run : ∀ events, asked events = submissions → ∃ results,
      failures recorder { store } events = [] ∧
      Settling results [] (performAll recorder { store } events) ∧
      (performAll recorder { store } events).submitted = results.map Prod.fst ∧
      Submission.oneByOne submissions store =
        .ok results (performAll recorder { store } events).store := by
    rintro events rfl
    exact start.performAll ⟨built.filed, writes, List.pairwise_map.mpr distinct, readable⟩
  have immediate : asked (submissions.map fun submission =>
      .submit false submission.extent submission.edits submission.validator) = submissions := by
    simp [asked, Event.asks, List.flatMap_map]
  obtain ⟨results, _, _, _, alone⟩ := run _ immediate
  refine ⟨results, _, alone, fun events order own => ?_⟩
  obtain ⟨same, failed, settling, submitted, ran⟩ := run events own
  rw [alone] at ran
  injection ran with results store
  subst results
  obtain ⟨closed, finished, settled, kept⟩ := settling.close order
  have reported := settling.balanced.perm_of_close _ finished
  have distinct := settling.balanced.distinct
  rw [submitted] at reported distinct
  exact ⟨failed, closed, finished, kept.trans store.symm,
    perm_of_keys reported distinct settled.reported⟩

/-- Asks to host a tablet that no operation holds. -/
def hosting (tablet : Metadata) : Submission :=
  ⟨tablet.extent, [.requireNoOperation, .putAvailability .hosted],
    fun current => current.availability = some .hosted⟩

theorem completion_order_irrelevant_deferred :
    ∃ later, Submission.oneByOne (twoTablets.map hosting) (twoTabletStore.addFault .applied) =
        .ok [(⟨⟨"t"⟩, some "m", none⟩, .accepted), (⟨⟨"t"⟩, none, some "m"⟩, .rejected)] later ∧
      ∃ closed, close recorder .reversed (performAll recorder
          { store := twoTabletStore.addFault .applied } (twoTablets.map fun tablet =>
            .submit true tablet.extent (hosting tablet).edits (hosting tablet).validator)) =
          .ok () closed ∧
        closed.store = later ∧
        closed.reports.Perm
          [(⟨⟨"t"⟩, some "m", none⟩, .accepted), (⟨⟨"t"⟩, none, some "m"⟩, .rejected)] := by
  have built := built_twoTabletStore.addFault .applied
  have holds := holds_twoTablets.addFault .applied
  have readable : ∀ submission ∈ twoTablets.map hosting,
      Readable (twoTabletStore.addFault .applied) submission.extent.metadataRow := by
    intro submission asked
    obtain ⟨tablet, member, rfl⟩ := List.mem_map.mp asked
    exact (holds.recorded tablet member).readable built.filed (holds.named_of_mem member)
  have writes : ∀ submission ∈ twoTablets.map hosting,
      submission.mutation.hasWrites = true := by
    intro submission asked
    obtain ⟨tablet, _, rfl⟩ := List.mem_map.mp asked
    rfl
  have distinct : (twoTablets.map hosting).Pairwise fun left right =>
      left.extent.metadataRow ≠ right.extent.metadataRow :=
    List.pairwise_map.mpr (holds.chain.rows_ascend.imp Std.ne_of_lt)
  obtain ⟨results, later, alone, every⟩ :=
    completion_order_irrelevant built writes distinct readable
  obtain ⟨_, closed, finished, kept, reported⟩ := every _ .reversed
    (show asked (twoTablets.map fun tablet =>
      .submit true tablet.extent (hosting tablet).edits (hosting tablet).validator) = _ from rfl)
  have told : results =
      [(⟨⟨"t"⟩, some "m", none⟩, .accepted), (⟨⟨"t"⟩, none, some "m"⟩, .rejected)] := by
    cases alone
    rfl
  subst told
  exact ⟨later, alone, closed, finished, kept, reported⟩

end Batch

end GuardedRows.Tablet
