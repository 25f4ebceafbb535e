import GuardedRows.Proofs.Tablet.Deliveries

/-!
# What is known of the parts of a batch

An invariant of a batch speaks of its store, of what it keeps of every tablet it awaits, of every
answer in flight and of every report. It is kept by handing over if reading keeps what is known
of the store and a settled outcome makes a report that the invariant allows; arrivals keep it in
any case, and a submission does if the new answer fits in.
-/

set_option autoImplicit false

namespace GuardedRows.Tablet.Batch

open StoreStep

structure Invariant (σ ρ : Type) where
  store : σ → Prop
  entry : Extent × Validator → Prop
  answer : Extent → Except Error Outcome → Prop
  report : ρ → Prop

namespace Invariant

variable {σ ρ : Type}

/-- The parts of a batch with certain submissions are as the invariant says. -/
structure Holds (inv : Invariant σ ρ) (submitted : List Extent) (batch : Batch σ ρ) : Prop where
  store : inv.store batch.store
  entries : ∀ kept ∈ batch.pending, inv.entry kept
  answers : ∀ sent ∈ batch.queue ++ batch.waiting, inv.answer sent.extent sent.answer
  reports : ∀ made ∈ batch.reports, inv.report made
  submitted : batch.submitted = submitted

structure Implies (inv weaker : Invariant σ ρ) : Prop where
  store : ∀ store, inv.store store → weaker.store store
  entry : ∀ kept, inv.entry kept → weaker.entry kept
  answer : ∀ extent answer, inv.answer extent answer → weaker.answer extent answer
  report : ∀ made, inv.report made → weaker.report made

/-- What has to be shown of one tablet that is read, or whose outcome is settled. -/
structure Kept [RowStore σ] (inv : Invariant σ ρ) (consumer : Consumer σ ρ) : Prop where
  unread : ∀ {extent : Extent} {store later : σ} {failure : Error}, inv.store store →
    find extent store = .error failure later → inv.store later
  settles : ∀ {extent : Extent} {validator : Validator} {answer : Except Error Outcome}
    {outcome : Outcome} {store later : σ}, inv.store store → inv.entry (extent, validator) →
    inv.answer extent answer → resolve extent validator answer store = .ok outcome later →
    inv.store (consumer extent outcome later).2 ∧ inv.report (consumer extent outcome later).1

namespace Holds

variable {inv : Invariant σ ρ} {submitted : List Extent} {batch : Batch σ ρ}

theorem mono {weaker : Invariant σ ρ} (holds : inv.Holds submitted batch)
    (implies : inv.Implies weaker) : weaker.Holds submitted batch where
  store := implies.store _ holds.store
  entries kept member := implies.entry kept (holds.entries kept member)
  answers sent member := implies.answer _ _ (holds.answers sent member)
  reports made member := implies.report made (holds.reports made member)
  submitted := holds.submitted

theorem arrive (holds : inv.Holds submitted batch) (extent : Extent) :
    inv.Holds submitted (batch.arrive extent) := by
  refine ⟨holds.store, holds.entries, fun sent member => ?_, holds.reports, holds.submitted⟩
  obtain ⟨before, among, extent, answer⟩ := exists_of_mem_arrive member
  rw [← extent, ← answer]
  exact holds.answers before among

theorem arriveAll (holds : inv.Holds submitted batch) (order : Arrival) :
    inv.Holds submitted (Batch.arriveAll order batch) :=
  arriveAll_keeps (inv.Holds submitted) (fun _ extent kept => kept.arrive extent) holds order

theorem sent (holds : inv.Holds submitted batch) (deferred : Bool) {extent : Extent}
    {validator : Validator} {answer : Except Error Outcome} {store : σ} (stored : inv.store store)
    (entry : inv.entry (extent, validator)) (fits : inv.answer extent answer) :
    inv.Holds (submitted ++ [extent]) (batch.sent deferred extent validator answer store) := by
  refine ⟨stored, fun kept member => ?_, fun sent member => ?_, holds.reports, ?_⟩
  · rcases List.mem_append.mp member with member | last
    · exact holds.entries kept member
    · rw [List.mem_singleton.mp last]
      exact entry
  · rcases List.mem_append.mp member with queued | waiting
    · rcases List.mem_append.mp queued with queued | last
      · exact holds.answers sent (List.mem_append_left _ queued)
      · rw [List.mem_singleton.mp last]
        exact fits
    · exact holds.answers sent (List.mem_append_right _ waiting)
  · rw [Batch.sent, holds.submitted]

theorem settling (holds : inv.Holds submitted batch) (extent : Extent) {store : σ}
    (stored : inv.store store) : inv.Holds submitted (batch.settling extent store) where
  store := stored
  entries kept member := holds.entries kept (List.mem_filter.mp member).1
  answers := holds.answers
  reports := holds.reports
  submitted := holds.submitted

variable [RowStore σ] {consumer : Consumer σ ρ}

theorem process (holds : inv.Holds submitted batch) (kept : inv.Kept consumer)
    {delivery : Delivery} (fits : inv.answer delivery.extent delivery.answer) :
    inv.Holds submitted (batch.after (Batch.process consumer delivery)) := by
  unfold after
  cases known : batch.pending.find? (·.1 = delivery.extent) with
  | none =>
      rw [process_eq_of_missing known]
      exact holds
  | some entry =>
      obtain ⟨extent, validator⟩ := entry
      have same : extent = delivery.extent := by simpa using List.find?_some known
      subst same
      have entry := holds.entries _ (List.mem_of_find?_eq_some known)
      cases result : resolve delivery.extent validator delivery.answer batch.store with
      | error failure store =>
          rw [process_eq_of_error known result]
          exact holds.settling _ (kept.unread holds.store (find_of_resolve_error result))
      | ok outcome store =>
          rw [process_eq_of_ok known result]
          obtain ⟨stored, allowed⟩ := kept.settles holds.store entry fits result
          have left := holds.settling delivery.extent stored
          refine ⟨left.store, left.entries, left.answers, fun made member => ?_, left.submitted⟩
          rcases List.mem_append.mp member with member | last
          · exact holds.reports made member
          · rw [List.mem_singleton.mp last]
            exact allowed

theorem processEach (holds : inv.Holds submitted batch) (kept : inv.Kept consumer)
    {queue : List Delivery} (fits : ∀ sent ∈ queue, inv.answer sent.extent sent.answer) :
    inv.Holds submitted (batch.after (Batch.processEach consumer queue)) := by
  induction queue generalizing batch with
  | nil => exact holds
  | cons delivery rest ih =>
      have own := fits delivery List.mem_cons_self
      have others : ∀ sent ∈ rest, inv.answer sent.extent sent.answer :=
        fun sent member => fits sent (List.mem_cons_of_mem delivery member)
      have taken : inv.Holds submitted { batch with queue := rest } := by
        refine ⟨holds.store, holds.entries, fun sent member => ?_, holds.reports,
          holds.submitted⟩
        rcases List.mem_append.mp member with queued | waiting
        · exact others sent queued
        · exact holds.answers sent (List.mem_append_right _ waiting)
      unfold after Batch.processEach
      rw [modify_bind_apply]
      cases arrived : delivery.arrived with
      | true =>
          have handed := taken.process kept own
          unfold after at handed
          simp only [↓reduceIte]
          cases result : Batch.process consumer delivery { batch with queue := rest } with
          | error failure between =>
              rw [bind_of_error result]
              rw [result] at handed
              exact handed
          | ok value between =>
              rw [bind_of_ok result]
              rw [result] at handed
              exact ih handed others
      | false =>
          simp only [Bool.false_eq_true, ↓reduceIte, modify_bind_apply]
          refine ih ⟨taken.store, taken.entries, fun sent member => ?_, taken.reports,
            taken.submitted⟩ others
          rcases List.mem_append.mp member with queued | waiting
          · exact others sent queued
          · rcases List.mem_append.mp waiting with waiting | last
            · exact holds.answers sent (List.mem_append_right _ waiting)
            · rw [List.mem_singleton.mp last]
              exact own

theorem processReady (holds : inv.Holds submitted batch) (kept : inv.Kept consumer) :
    inv.Holds submitted (batch.after (Batch.processReady consumer)) :=
  holds.processEach kept fun sent member => holds.answers sent (List.mem_append_left _ member)

theorem close (holds : inv.Holds submitted batch) (kept : inv.Kept consumer) (order : Arrival) :
    inv.Holds submitted (batch.after (Batch.close consumer order)) :=
  (holds.arriveAll order).processReady kept

theorem submit (holds : inv.Holds submitted batch) (kept : inv.Kept consumer) {extent : Extent}
    {edits : List Edit} (taken : refusal? batch.submitted extent edits = none) (deferred : Bool)
    {validator : Validator} {answer : Except Error Outcome} {store : σ}
    (answered : (RowStore.submit (Edit.mutation extent edits) : StoreStep σ Outcome).outcome
      batch.store = .ok answer store)
    (stored : inv.store store) (entry : inv.entry (extent, validator))
    (fits : inv.answer extent answer) :
    inv.Holds (submitted ++ [extent])
      (batch.after (Batch.submit consumer deferred extent edits validator)) := by
  unfold after
  rw [submit_eq_of_taken taken consumer deferred validator answered]
  exact (holds.sent deferred stored entry fits).processReady kept

end Holds

end Invariant

end GuardedRows.Tablet.Batch
