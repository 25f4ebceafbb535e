import GuardedRows.Proofs.Tablet.BatchMoves

/-!
# What becomes of deliveries

Every tablet that a batch has submitted is awaited, was reported or is lost, and just one of
these: it is awaited as long as its delivery is in flight, and it is lost if the tablet could
not be read when its outcome had to be settled. Submitting, arriving and handing over keep this
balance in whatever order they come.
-/

set_option autoImplicit false

namespace GuardedRows.Tablet

open StoreStep

/-- A consumer that notes what it is told, whatever it does with the store. -/
def recording {σ : Type} (effect : Extent → Outcome → σ → σ) : Consumer σ (Extent × Outcome) :=
  fun extent outcome store => ((extent, outcome), effect extent outcome store)

namespace Batch

variable {σ ρ : Type}

/-- The tablets whose deliveries the batch still has. -/
def inFlight (batch : Batch σ ρ) : List Extent :=
  (batch.queue ++ batch.waiting).map Delivery.extent

/-- The tablets whose outcomes the batch has yet to hand over. -/
def awaited (batch : Batch σ ρ) : List Extent := batch.pending.map Prod.fst

/-- The batch without what it kept of a tablet whose outcome is being settled. -/
def settling (batch : Batch σ ρ) (extent : Extent) (store : σ) : Batch σ ρ :=
  { batch with store, pending := batch.pending.filter (·.1 ≠ extent) }

section Handing

variable [RowStore σ] {consumer : Consumer σ ρ} {batch : Batch σ ρ} {delivery : Delivery}
  {validator : Validator} {store : σ}

variable (σ) in
/-- An outcome is settled as it was told, or else by reading the tablet. -/
theorem resolve_cases (extent : Extent) (validator : Validator)
    (answer : Except Error Outcome) :
    (∃ outcome, outcome ≠ .unknown ∧
        (resolve extent validator answer : StoreStep σ Outcome) = pure outcome) ∨
      (resolve extent validator answer : StoreStep σ Outcome) = (do
        let current ← find extent
        return if current.any validator then .accepted else .rejected) := by
  cases answer with
  | error failure => exact .inr rfl
  | ok outcome =>
      cases outcome with
      | accepted => exact .inl ⟨.accepted, by decide, rfl⟩
      | rejected => exact .inl ⟨.rejected, by decide, rfl⟩
      | unknown => exact .inr rfl

theorem find_of_resolve_error {extent : Extent} {answer : Except Error Outcome} {later : σ}
    {failure : Error} (failed : resolve extent validator answer store = .error failure later) :
    find extent store = .error failure later := by
  rcases resolve_cases σ extent validator answer with ⟨outcome, _, told⟩ | asks
  · rw [told] at failed
    cases failed
  · rw [asks] at failed
    cases found : (find extent : StoreStep σ (Option Metadata)) store with
    | ok current between =>
        rw [bind_of_ok found] at failed
        cases failed
    | error other between =>
        rw [bind_of_error found] at failed
        cases failed
        rfl

theorem outcome_of_resolve {extent : Extent} {answer : Except Error Outcome} {later : σ}
    {outcome : Outcome} (resolved : resolve extent validator answer store = .ok outcome later) :
    outcome ≠ .unknown := by
  rcases resolve_cases σ extent validator answer with ⟨known, decided, told⟩ | asks
  · rw [told] at resolved
    cases resolved
    exact decided
  · rw [asks] at resolved
    cases found : (find extent : StoreStep σ (Option Metadata)) store with
    | ok current between =>
        rw [bind_of_ok found] at resolved
        cases resolved
        split <;> decide
    | error failure between =>
        rw [bind_of_error found] at resolved
        cases resolved

omit [RowStore σ] in
theorem takePending_eq {extent : Extent}
    (kept : batch.pending.find? (·.1 = extent) = some (extent, validator)) :
    takePending extent batch = .ok validator (batch.settling extent batch.store) := by
  unfold takePending
  rw [get_bind_apply]
  simp only [kept]
  rfl

theorem process_eq_of_ok {outcome : Outcome}
    (kept : batch.pending.find? (·.1 = delivery.extent) = some (delivery.extent, validator))
    (resolved : resolve delivery.extent validator delivery.answer batch.store =
      .ok outcome store) :
    process consumer delivery batch =
      .ok () { batch.settling delivery.extent (consumer delivery.extent outcome store).2 with
        reports := batch.reports ++ [(consumer delivery.extent outcome store).1] } := by
  have lifted : (lift (resolve delivery.extent validator delivery.answer) : BatchStep σ ρ _)
      (batch.settling delivery.extent batch.store) =
        .ok outcome (batch.settling delivery.extent store) := by
    simp only [lift, settling, resolved]
  unfold process
  rw [bind_of_ok (takePending_eq kept), bind_of_ok lifted]
  rfl

theorem process_eq_of_error {failure : Error}
    (kept : batch.pending.find? (·.1 = delivery.extent) = some (delivery.extent, validator))
    (failed : resolve delivery.extent validator delivery.answer batch.store =
      .error failure store) :
    process consumer delivery batch =
      .error failure (batch.settling delivery.extent store) := by
  have lifted : (lift (resolve delivery.extent validator delivery.answer) : BatchStep σ ρ _)
      (batch.settling delivery.extent batch.store) =
        .error failure (batch.settling delivery.extent store) := by
    simp only [lift, settling, failed]
  unfold process
  rw [bind_of_ok (takePending_eq kept), bind_of_error lifted]

theorem process_eq_of_missing (missing : batch.pending.find? (·.1 = delivery.extent) = none) :
    process consumer delivery batch = .error (.refused (.notPending delivery.extent)) batch := by
  have refused : (takePending delivery.extent : BatchStep σ ρ Validator) batch =
      .error (.refused (.notPending delivery.extent)) batch := by
    unfold takePending
    rw [get_bind_apply]
    simp only [missing]
    rfl
  unfold process
  rw [bind_of_error refused]

theorem exists_of_process {later : Batch σ ρ} (ran : process consumer delivery batch = .ok () later) :
    ∃ validator outcome store,
      batch.pending.find? (·.1 = delivery.extent) = some (delivery.extent, validator) ∧
      resolve delivery.extent validator delivery.answer batch.store = .ok outcome store ∧
      later = { batch.settling delivery.extent (consumer delivery.extent outcome store).2 with
        reports := batch.reports ++ [(consumer delivery.extent outcome store).1] } := by
  cases kept : batch.pending.find? (·.1 = delivery.extent) with
  | none =>
      rw [process_eq_of_missing kept] at ran
      cases ran
  | some entry =>
      obtain ⟨key, validator⟩ := entry
      have same : key = delivery.extent := by simpa using List.find?_some kept
      subst same
      cases result : resolve delivery.extent validator delivery.answer batch.store with
      | error failure store =>
          rw [process_eq_of_error kept result] at ran
          cases ran
      | ok outcome store =>
          rw [process_eq_of_ok kept result] at ran
          cases ran
          exact ⟨validator, outcome, store, rfl, result, rfl⟩

/-- Once a queue has been gone through, what had not arrived is set aside behind what was. -/
theorem processEach_drains {queue : List Delivery} {later : Batch σ ρ}
    (same : batch.queue = queue) (ran : processEach consumer queue batch = .ok () later) :
    later.queue = [] ∧ later.waiting = batch.waiting ++ queue.filter (!·.arrived) := by
  induction queue generalizing batch with
  | nil =>
      cases ran
      exact ⟨same, by simp⟩
  | cons delivery rest ih =>
      unfold processEach at ran
      rw [modify_bind_apply] at ran
      cases arrived : delivery.arrived with
      | true =>
          simp only [arrived, ↓reduceIte] at ran
          cases handed : process consumer delivery { batch with queue := rest } with
          | error failure between =>
              rw [bind_of_error handed] at ran
              cases ran
          | ok value between =>
              rw [bind_of_ok handed] at ran
              obtain ⟨_, _, _, _, _, rfl⟩ := exists_of_process handed
              obtain ⟨queue, waiting⟩ := ih rfl ran
              exact ⟨queue, by simp [waiting, arrived, settling]⟩
      | false =>
          simp only [arrived, Bool.false_eq_true, ↓reduceIte, modify_bind_apply] at ran
          obtain ⟨queue, waiting⟩ := ih rfl ran
          exact ⟨queue, by simp [waiting, arrived]⟩

end Handing

/-! ## Arrivals -/

theorem extent_arrive (extent : Extent) (delivery : Delivery) :
    (delivery.arrive extent).extent = delivery.extent := by
  unfold Delivery.arrive
  split <;> rfl

theorem inFlight_arrive (extent : Extent) (batch : Batch σ ρ) :
    (batch.arrive extent).inFlight.Perm batch.inFlight := by
  have parted : (batch.waiting.filter (·.extent = extent) ++
      batch.waiting.filter (·.extent ≠ extent)).Perm batch.waiting := by
    simpa using List.filter_append_perm (fun delivery => decide (delivery.extent = extent))
      batch.waiting
  have same : Delivery.extent ∘ Delivery.arrive extent = Delivery.extent :=
    funext (extent_arrive extent)
  unfold inFlight arrive
  rw [List.map_append, List.map_map, same, ← List.map_append, List.append_assoc]
  exact (parted.append_left batch.queue).map Delivery.extent

theorem exists_of_mem_arrive {extent : Extent} {batch : Batch σ ρ} {delivery : Delivery}
    (member : delivery ∈ (batch.arrive extent).queue ++ (batch.arrive extent).waiting) :
    ∃ before ∈ batch.queue ++ batch.waiting,
      before.extent = delivery.extent ∧ before.answer = delivery.answer := by
  rcases List.mem_append.mp member with queued | waiting
  · obtain ⟨before, among, rfl⟩ := List.mem_map.mp queued
    refine ⟨before, ?_, (extent_arrive extent before).symm, ?_⟩
    · rcases List.mem_append.mp among with among | among
      · exact List.mem_append_left _ among
      · exact List.mem_append_right _ (List.mem_filter.mp among).1
    · unfold Delivery.arrive
      split <;> rfl
  · exact ⟨delivery, List.mem_append_right _ (List.mem_filter.mp waiting).1, rfl, rfl⟩

/-- Nothing is waiting, and everything in the queue has arrived. -/
structure Answered (batch : Batch σ ρ) : Prop where
  waiting : batch.waiting = []
  arrived : ∀ delivery ∈ batch.queue, delivery.arrived = true

theorem answered_foldl_arrive {extents : List Extent} {batch : Batch σ ρ}
    (waiting : ∀ delivery ∈ batch.waiting, delivery.extent ∈ extents)
    (queued : ∀ delivery ∈ batch.queue, delivery.arrived = true ∨ delivery.extent ∈ extents) :
    (extents.foldl (fun batch extent => batch.arrive extent) batch).Answered := by
  induction extents generalizing batch with
  | nil =>
      refine ⟨List.eq_nil_iff_forall_not_mem.mpr fun delivery member => ?_, fun delivery member => ?_⟩
      · cases waiting delivery member
      · exact (queued delivery member).resolve_right List.not_mem_nil
  | cons extent rest ih =>
      refine ih ?_ ?_
      · intro delivery member
        obtain ⟨member, other⟩ := List.mem_filter.mp member
        exact (List.mem_cons.mp (waiting delivery member)).resolve_left (of_decide_eq_true other)
      · intro delivery member
        obtain ⟨before, among, rfl⟩ := List.mem_map.mp member
        rw [extent_arrive]
        unfold Delivery.arrive
        by_cases own : before.extent = extent
        · rw [if_pos own]
          exact .inl rfl
        · rw [if_neg own]
          rcases List.mem_append.mp among with among | among
          · exact (queued before among).imp_right fun listed =>
              (List.mem_cons.mp listed).resolve_left own
          · exact absurd (of_decide_eq_true (List.mem_filter.mp among).2) own

theorem answered_arriveAll (order : Arrival) (batch : Batch σ ρ) :
    (arriveAll order batch).Answered := by
  have listed : ∀ extents : List Extent, (∀ extent ∈ batch.unanswered, extent ∈ extents) →
      (extents.foldl (fun batch extent => batch.arrive extent) batch).Answered := by
    intro extents unanswered
    refine answered_foldl_arrive ?_ ?_
    · intro delivery member
      exact unanswered _ (List.mem_map_of_mem (List.mem_append_left _ member))
    · intro delivery member
      cases arrived : delivery.arrived with
      | true => exact .inl rfl
      | false =>
          refine .inr (unanswered _ (List.mem_map_of_mem (List.mem_append_right _ ?_)))
          exact List.mem_filter.mpr ⟨member, by simp [arrived]⟩
  cases order with
  | inOrder => exact listed _ fun extent member => member
  | reversed => exact listed _ fun extent member => List.mem_reverse.mpr member

/-! ## The balance -/

/-- What is in hand or in flight is awaited, and what is awaited, lost or reported was submitted,
each once. Nothing is reported as unknown. -/
structure Balanced (hand lost : List Extent) (batch : Batch σ (Extent × Outcome)) : Prop where
  awaited : (hand ++ batch.inFlight).Perm batch.awaited
  distinct : batch.submitted.Nodup
  settled : (batch.awaited ++ (lost ++ batch.reports.map Prod.fst)).Perm batch.submitted
  told : ∀ report ∈ batch.reports, report.2 ≠ .unknown

/-- What was reported: each tablet at most once, none that was not submitted, and each as accepted
or rejected. -/
structure ReportsOnce (batch : Batch σ (Extent × Outcome)) : Prop where
  once : (batch.reports.map Prod.fst).Nodup
  submitted : ∀ report ∈ batch.reports, report.1 ∈ batch.submitted
  settled : ∀ report ∈ batch.reports, report.2 = .accepted ∨ report.2 = .rejected

namespace Balanced

variable {batch : Batch σ (Extent × Outcome)} {hand lost : List Extent}

theorem empty (store : σ) : Balanced [] [] ({ store } : Batch σ (Extent × Outcome)) :=
  ⟨.refl _, .nil, .refl _, fun _ member => nomatch member⟩

theorem nodup (balanced : Balanced hand lost batch) :
    (batch.awaited ++ (lost ++ batch.reports.map Prod.fst)).Nodup :=
  balanced.settled.nodup_iff.mpr balanced.distinct

theorem mem_submitted (balanced : Balanced hand lost batch) {extent : Extent}
    (member : extent ∈ batch.awaited) : extent ∈ batch.submitted :=
  balanced.settled.subset (List.mem_append_left _ member)

theorem reportsOnce (balanced : Balanced hand lost batch) :
    ReportsOnce batch := by
  obtain ⟨_, reported, _⟩ := List.nodup_append.mp balanced.nodup
  refine ⟨(List.nodup_append.mp reported).2.1, fun report member => ?_, fun report member => ?_⟩
  · refine balanced.settled.subset (List.mem_append_right _ (List.mem_append_right _ ?_))
    exact List.mem_map_of_mem member
  · cases outcome : report.2 with
    | accepted => exact .inl rfl
    | rejected => exact .inr rfl
    | unknown => exact absurd outcome (balanced.told report member)

theorem exists_pending (balanced : Balanced hand lost batch) {extent : Extent}
    (member : extent ∈ hand) :
    ∃ validator, batch.pending.find? (·.1 = extent) = some (extent, validator) := by
  have known : extent ∈ batch.awaited :=
    balanced.awaited.subset (List.mem_append_left _ member)
  obtain ⟨entry, among, own⟩ := List.mem_map.mp known
  have found : (batch.pending.find? (·.1 = extent)).isSome = true :=
    List.find?_isSome.mpr ⟨entry, among, decide_eq_true own⟩
  obtain ⟨⟨key, validator⟩, kept⟩ := Option.isSome_iff_exists.mp found
  have same : key = extent := by simpa using List.find?_some kept
  subst same
  exact ⟨validator, kept⟩

theorem perm_settling (balanced : Balanced hand lost batch) {extent : Extent}
    (member : extent ∈ batch.awaited) (store : σ) :
    batch.awaited.Perm (extent :: (batch.settling extent store).awaited) := by
  have distinct : batch.awaited.Nodup := (List.nodup_append.mp balanced.nodup).1
  have left : (batch.settling extent store).awaited = batch.awaited.erase extent := by
    have others : ∀ key : Extent, (key != extent) = decide (key ≠ extent) := by
      intro key
      by_cases own : key = extent <;> simp [own]
    rw [distinct.erase_eq_filter extent, funext others, Batch.awaited, Batch.awaited,
      List.filter_map]
    rfl
  rw [left]
  exact List.perm_cons_erase member

open scoped List in
/-- The outcome of the tablet in hand was told, or the tablet is lost. -/
theorem settling {extent : Extent} (balanced : Balanced [extent] lost batch) (store : σ) :
    Balanced [] (extent :: lost) (batch.settling extent store) ∧
      ∀ outcome, outcome ≠ .unknown →
        Balanced [] lost { batch.settling extent store with
          reports := batch.reports ++ [(extent, outcome)] } := by
  have member : extent ∈ batch.awaited := balanced.awaited.subset List.mem_cons_self
  have removed := balanced.perm_settling member store
  have awaited : batch.inFlight.Perm (batch.settling extent store).awaited :=
    (balanced.awaited.trans removed).cons_inv
  refine ⟨⟨awaited, balanced.distinct, ?_, balanced.told⟩, fun outcome known =>
    ⟨awaited, balanced.distinct, ?_, ?_⟩⟩
  · calc
      (batch.settling extent store).awaited ++ (extent :: lost ++ batch.reports.map Prod.fst)
      _ ~ extent :: (batch.settling extent store).awaited ++
          (lost ++ batch.reports.map Prod.fst) := List.perm_middle
      _ ~ batch.awaited ++ (lost ++ batch.reports.map Prod.fst) := removed.symm.append_right _
      _ ~ batch.submitted := balanced.settled
  · calc
      (batch.settling extent store).awaited ++
          (lost ++ (batch.reports ++ [(extent, outcome)]).map Prod.fst)
      _ = (batch.settling extent store).awaited ++ (lost ++ batch.reports.map Prod.fst) ++
          [extent] := by simp
      _ ~ extent :: (batch.settling extent store).awaited ++
          (lost ++ batch.reports.map Prod.fst) := List.perm_append_singleton extent _
      _ ~ batch.awaited ++ (lost ++ batch.reports.map Prod.fst) := removed.symm.append_right _
      _ ~ batch.submitted := balanced.settled
  · intro report among
    rcases List.mem_append.mp among with among | last
    · exact balanced.told report among
    · rw [List.mem_singleton.mp last]
      exact known

theorem sent (balanced : Balanced [] lost batch) {extent : Extent}
    (fresh : extent ∉ batch.submitted) (deferred : Bool) (validator : Validator)
    (answer : Except Error Outcome) (store : σ) :
    Balanced [] lost (batch.sent deferred extent validator answer store) := by
  have awaited : (batch.sent deferred extent validator answer store).awaited =
      batch.awaited ++ [extent] := by simp [Batch.sent, Batch.awaited]
  refine ⟨?_, ?_, ?_, balanced.told⟩
  · rw [awaited]
    refine .trans ?_ (balanced.awaited.append_right [extent])
    simp only [Batch.sent, inFlight, List.map_append, List.nil_append, List.append_assoc]
    exact (List.perm_append_comm).append_left _
  · refine List.nodup_append.mpr ⟨balanced.distinct, List.pairwise_singleton _ _, ?_⟩
    rintro known member other last rfl
    exact fresh (List.mem_singleton.mp last ▸ member)
  · rw [awaited]
    refine .trans ?_ (balanced.settled.append_right [extent])
    rw [List.append_assoc, List.append_assoc]
    exact (List.perm_append_comm).append_left _

theorem take {delivery : Delivery} {rest : List Delivery} (balanced : Balanced [] lost batch)
    (same : batch.queue = delivery :: rest) :
    Balanced [delivery.extent] lost { batch with queue := rest } := by
  obtain ⟨awaited, distinct, settled, told⟩ := balanced
  rw [inFlight, same] at awaited
  exact ⟨awaited, distinct, settled, told⟩

theorem setAside {delivery : Delivery} {rest : List Delivery} (balanced : Balanced [] lost batch)
    (same : batch.queue = delivery :: rest) :
    Balanced [] lost { batch with queue := rest, waiting := batch.waiting ++ [delivery] } := by
  obtain ⟨awaited, distinct, settled, told⟩ := balanced.take same
  have moved : (rest ++ (batch.waiting ++ [delivery])).Perm
      (delivery :: (rest ++ batch.waiting)) := by
    rw [← List.append_assoc]
    exact List.perm_append_singleton delivery _
  exact ⟨(moved.map Delivery.extent).trans awaited, distinct, settled, told⟩

theorem arrive (balanced : Balanced [] lost batch) (extent : Extent) :
    Balanced [] lost (batch.arrive extent) :=
  ⟨(inFlight_arrive extent batch).trans balanced.awaited, balanced.distinct, balanced.settled,
    balanced.told⟩

theorem arriveAll (balanced : Balanced [] lost batch) (order : Arrival) :
    Balanced [] lost (arriveAll order batch) :=
  arriveAll_keeps (Balanced [] lost) (fun _ extent kept => kept.arrive extent) balanced order

end Balanced

/-! ## Calls -/

/-- What a call that hands outcomes over may come to. If it fails, one more tablet is lost: it
could not be read. -/
inductive Settles [RowStore σ] (lost submitted : List Extent) :
    EStateM.Result Error (Batch σ (Extent × Outcome)) Unit → Prop where
  | ok {later : Batch σ (Extent × Outcome)} :
      Balanced [] lost later → later.submitted = submitted → Settles lost submitted (.ok () later)
  | error {later : Batch σ (Extent × Outcome)} {failure : Error} {extent : Extent}
      {store seen : σ} :
      Balanced [] (extent :: lost) later → later.submitted = submitted →
      find extent store = .error failure seen → Settles lost submitted (.error failure later)

namespace Balanced

variable [RowStore σ] {batch : Batch σ (Extent × Outcome)} {lost : List Extent}

theorem process {delivery : Delivery} (balanced : Balanced [delivery.extent] lost batch)
    (effect : Extent → Outcome → σ → σ) :
    Settles lost batch.submitted (process (recording effect) delivery batch) := by
  obtain ⟨validator, kept⟩ := balanced.exists_pending List.mem_cons_self
  cases result : resolve delivery.extent validator delivery.answer batch.store with
  | ok outcome store =>
      rw [process_eq_of_ok kept result]
      exact .ok ((balanced.settling _).2 outcome (outcome_of_resolve result)) rfl
  | error failure store =>
      rw [process_eq_of_error kept result]
      exact .error (balanced.settling store).1 rfl (find_of_resolve_error result)

theorem processEach {queue : List Delivery} (balanced : Balanced [] lost batch)
    (same : batch.queue = queue) (effect : Extent → Outcome → σ → σ) :
    Settles lost batch.submitted (processEach (recording effect) queue batch) := by
  induction queue generalizing batch with
  | nil => exact .ok balanced rfl
  | cons delivery rest ih =>
      unfold Batch.processEach
      rw [modify_bind_apply]
      cases arrived : delivery.arrived with
      | true =>
          have handed := (balanced.take same).process effect
          simp only [↓reduceIte]
          cases result : Batch.process (recording effect) delivery { batch with queue := rest } with
          | error failure between =>
              rw [bind_of_error result]
              rw [result] at handed
              exact handed
          | ok value between =>
              rw [bind_of_ok result]
              rw [result] at handed
              obtain ⟨_, _, _, _, _, rfl⟩ := exists_of_process result
              cases handed with
              | ok balanced submitted => exact submitted ▸ ih balanced rfl
      | false =>
          simp only [Bool.false_eq_true, ↓reduceIte, modify_bind_apply]
          exact ih (balanced.setAside same) rfl

theorem processReady (balanced : Balanced [] lost batch) (effect : Extent → Outcome → σ → σ) :
    Settles lost batch.submitted (processReady (recording effect) batch) :=
  balanced.processEach rfl effect

theorem submit (balanced : Balanced [] lost batch) {extent : Extent} {edits : List Edit}
    (taken : refusal? batch.submitted extent edits = none) (effect : Extent → Outcome → σ → σ)
    (deferred : Bool) (validator : Validator) :
    Settles lost (batch.submitted ++ [extent])
      (submit (recording effect) deferred extent edits validator batch) := by
  obtain ⟨answer, store, answered⟩ :=
    exists_outcome (RowStore.submit (Edit.mutation extent edits)) batch.store
  rw [submit_eq_of_taken taken _ deferred validator answered]
  obtain ⟨_, fresh⟩ := refusal?_eq_none_iff.mp taken
  exact (balanced.sent fresh deferred validator answer store).processReady effect

/-- If a batch closes, it has nothing left to hand over. -/
theorem close (balanced : Balanced [] lost batch) (effect : Extent → Outcome → σ → σ)
    (order : Arrival) :
    Settles lost batch.submitted (close (recording effect) order batch) ∧
      ∀ later, Batch.close (recording effect) order batch = .ok () later → later.awaited = [] := by
  obtain ⟨queue, waiting, moved⟩ := exists_arriveAll order batch
  have arrived := balanced.arriveAll order
  have handed := arrived.processReady effect
  have submitted : (Batch.arriveAll order batch).submitted = batch.submitted := by rw [moved]
  rw [submitted] at handed
  refine ⟨handed, fun later ran => ?_⟩
  have ready : Batch.processReady (recording effect) (Batch.arriveAll order batch) =
      .ok () later := ran
  obtain ⟨none, come⟩ := answered_arriveAll order batch
  obtain ⟨emptied, left⟩ := processEach_drains rfl ready
  have aside : (Batch.arriveAll order batch).queue.filter (!·.arrived) = [] :=
    List.filter_eq_nil_iff.mpr fun delivery member => by simp [come delivery member]
  rw [none, aside] at left
  rw [ready] at handed
  cases handed with
  | ok balanced submitted =>
      have awaited := balanced.awaited
      rw [inFlight, emptied, left] at awaited
      exact awaited.symm.eq_nil

end Balanced

end Batch

end GuardedRows.Tablet
