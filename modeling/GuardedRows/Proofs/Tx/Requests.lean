import GuardedRows.Proofs.Store.Sends
import GuardedRows.Tx.Clients

/-!
# What requests send

Every edit that a request can come to. A handle edits nothing but its own transaction, and
each of its edits asks for its own reservation.
-/

set_option autoImplicit false

namespace GuardedRows.Tx

open StoreStep

/-- The edits that work through a handle can come to. -/
inductive Handle.Sends (handle : Handle) : HandleRequest → List Edit → Prop where
  | push (position : UInt32) (step : Bytes) :
      Sends handle (.push step)
        (handle.guarded [.requireStatus [.new, .inProgress], .putStep position step])
  | pop (position : UInt32) :
      Sends handle .pop
        (handle.guarded [.requireStatus [.failedInProgress, .successful], .deleteStep position])
  | setStatus (status : Status) :
      Sends handle (.setStatus status) (handle.guarded [.putStatus status])
  | setInfo (info : Info) (value : String) :
      Sends handle (.setInfo info value) (handle.guarded [.putInfo info value])
  | delete :
      Sends handle .delete
        (handle.guarded [.requireStatus [.new, .submitted, .successful, .failed], .delete])
  | unreserve : Sends handle .unreserve [.release handle.reservation]

inductive Request.Sends (handles : SortedMap String Handle) : Request → Id → List Edit → Prop where
  | create (home : Instance) (drawn : Uuid) (now : UInt64) :
      Sends handles (.create home drawn now) ⟨home, drawn⟩
        [.requireAbsent, .putStatus .new, .putCreateTime now]
  | tryReserve (id : Id) (lock : LockId) (drawn : Uuid) (name : String) :
      Sends handles (.tryReserve id lock drawn name) id
        [.requireStatus Status.all, .reserve ⟨lock, drawn⟩]
  | work {name : String} {handle : Handle} {request : HandleRequest} {edits : List Edit} :
      handles.get? name = some handle → handle.Sends request edits →
      Sends handles (.work name request) handle.transaction edits
  | releaseDead (isLive : LockId → Bool) (id : Id) (reservation : Reservation) :
      Sends handles (.releaseDead isLive) id [.release reservation]

def Request.Submits (handles : SortedMap String Handle) (request : Request)
    (mutation : Mutation) : Prop :=
  ∃ id edits, request.Sends handles id edits ∧ mutation = Edit.mutation id edits

/-! ## The guard of a handle -/

/-- The record of the transaction holds the reservation of the handle. -/
def Handle.Matches (handle : Handle) (store : Memory) : Prop :=
  store.cell? handle.transaction.text reservationColumn =
    some (Bytes.ofText handle.reservation.text)

section Guarded

variable {handle : Handle} {mutation : Mutation} {store : Memory}

theorem Handle.conditionsHold_iff (asks : mutation.conditions =
      [.equals reservationColumn (Bytes.ofText handle.reservation.text)]) :
    mutation.conditionsHold (store.read handle.transaction.text) = true ↔
      handle.Matches store := by
  unfold Mutation.conditionsHold
  rw [asks, List.all_cons, List.all_nil, Bool.and_true]
  exact Condition.holds_equals

theorem Handle.lands_iff (asks : mutation.conditions =
      [.equals reservationColumn (Bytes.ofText handle.reservation.text)])
    (own : mutation.row = handle.transaction.text) :
    store.lands mutation = true ↔
      store.faults.head? ≠ some .dropped ∧ handle.Matches store := by
  rw [Memory.lands, own, Bool.and_eq_true_iff, bne_iff_ne, Handle.conditionsHold_iff asks]

theorem Handle.matches_of_missed (missed : store.lands mutation = false) :
    handle.Matches (store.submit mutation).2 ↔ handle.Matches store := by
  rw [Matches, Memory.cell?_of_missed missed, Matches]

end Guarded

theorem Handle.Sends.guarded {handle : Handle} {request : HandleRequest} {edits : List Edit}
    (sends : handle.Sends request edits) :
    .equals reservationColumn (Bytes.ofText handle.reservation.text) ∈
      (Edit.mutation handle.transaction edits).conditions := by
  cases sends <;> simp [Edit.mutation, Handle.guarded, Edit.conditions]

theorem Handle.Sends.lands_eq_false {handle : Handle} {request : HandleRequest}
    {edits : List Edit} {store : Memory} (sends : handle.Sends request edits)
    (lost : ¬handle.Matches store) :
    store.lands (Edit.mutation handle.transaction edits) = false := by
  have fails : Condition.holds (store.read handle.transaction.text)
      (.equals reservationColumn (Bytes.ofText handle.reservation.text)) = false :=
    Bool.eq_false_iff.mpr (mt Condition.holds_equals.mp lost)
  have refused : (Edit.mutation handle.transaction edits).conditionsHold
      (store.read handle.transaction.text) = false :=
    List.all_eq_false.mpr ⟨_, sends.guarded, by simp [fails]⟩
  simp only [Memory.lands, Bool.and_eq_false_iff]
  exact .inr refused

def Handle.Submits (handle : Handle) (request : HandleRequest) (mutation : Mutation) : Prop :=
  ∃ edits, handle.Sends request edits ∧ mutation = Edit.mutation handle.transaction edits

/-- A handle that has lost its reservation changes no row. -/
theorem Handle.rows_of_lost {handle : Handle} {request : HandleRequest} {before later : Memory}
    (sent : Memory.Sent (handle.Submits request) before later) (lost : ¬handle.Matches before) :
    later.rows = before.rows := by
  induction sent with
  | nothing => rfl
  | @more between mutation _ submits ih =>
      obtain ⟨edits, sends, rfl⟩ := submits
      have still : ¬handle.Matches between := by
        unfold Handle.Matches Memory.cell? Memory.read
        rw [ih]
        exact lost
      rw [Memory.submit_of_not_lands (sends.lands_eq_false still)]
      exact ih

/-! ## Single operations -/

section Operations

variable {allowed : Mutation → Prop}

private theorem edits_attempt_sends {id : Id} {edits : List Edit}
    (permitted : allowed (Edit.mutation id edits)) :
    StoreStep.Sends allowed (Edit.attempt id edits : StoreStep Memory Outcome) :=
  Mutation.attempt_sends permitted

private theorem edits_settle_sends {id : Id} {edits : List Edit}
    (permitted : allowed (Edit.mutation id edits)) (verifier : Option Snapshot → Bool) :
    StoreStep.Sends allowed
      (Edit.settle id edits verifier : StoreStep Memory (Settlement Snapshot)) :=
  .bind (Mutation.settle_sends permitted _) fun _ => .pure _

private theorem find_sends (id : Id) :
    StoreStep.Sends allowed (find id : StoreStep Memory (Option Snapshot)) := by
  refine .bind (.read _) fun current => ?_
  cases current with
  | none => exact .pure _
  | some record => exact .bind (.ofExcept _) fun _ => .pure _

private theorem read_sends (handle : Handle) :
    StoreStep.Sends allowed (handle.read : StoreStep Memory Snapshot) := by
  refine .bind (find_sends _) fun current => ?_
  cases current with
  | none => exact .throw _
  | some snapshot => exact .pure _

private theorem expectAccepted_sends (handle : Handle) (act : Act) (outcome : Outcome) :
    StoreStep.Sends allowed (handle.expectAccepted act outcome : StoreStep Memory Unit) := by
  cases outcome with
  | accepted => exact .pure _
  | rejected => exact .throw _
  | unknown => exact .throw _

private theorem push_sends {handle : Handle} {limit : UInt32} {step : Bytes}
    (permitted : ∀ edits, handle.Sends (.push step) edits →
      allowed (Edit.mutation handle.transaction edits)) :
    StoreStep.Sends allowed (handle.push limit step : StoreStep Memory Unit) := by
  refine .bind (read_sends _) fun snapshot => ?_
  cases Handle.nextPosition limit snapshot with
  | none => exact .throw _
  | some position =>
      exact .bind (edits_settle_sends (permitted _ (.push position step)) _) fun _ =>
        expectAccepted_sends _ _ _

private theorem pop_sends {handle : Handle}
    (permitted : ∀ edits, handle.Sends .pop edits →
      allowed (Edit.mutation handle.transaction edits)) :
    StoreStep.Sends allowed (handle.pop : StoreStep Memory Unit) := by
  refine .bind (read_sends _) fun snapshot => ?_
  cases snapshot.topPosition with
  | none => exact .throw _
  | some position =>
      exact .bind (edits_settle_sends (permitted _ (.pop position)) _) fun _ =>
        expectAccepted_sends _ _ _

theorem Handle.run_sends {handle : Handle} {request : HandleRequest} (limit : UInt32)
    (permitted : ∀ edits, handle.Sends request edits →
      allowed (Edit.mutation handle.transaction edits)) :
    StoreStep.Sends allowed (request.run limit handle : StoreStep Memory Reply) := by
  cases request with
  | status => exact .bind (.bind (read_sends _) fun _ => .pure _) fun _ => .pure _
  | top => exact .bind (.bind (read_sends _) fun _ => .pure _) fun _ => .pure _
  | push step => exact .bind (push_sends permitted) fun _ => .pure _
  | pop => exact .bind (pop_sends permitted) fun _ => .pure _
  | setStatus status =>
      exact .bind (.bind (edits_settle_sends (permitted _ (.setStatus status)) _) fun _ =>
        expectAccepted_sends _ _ _) fun _ => .pure _
  | setInfo info value =>
      exact .bind (.bind (edits_attempt_sends (permitted _ (.setInfo info value))) fun _ =>
        expectAccepted_sends _ _ _) fun _ => .pure _
  | delete =>
      exact .bind (.bind (edits_settle_sends (permitted _ .delete) _) fun _ =>
        expectAccepted_sends _ _ _) fun _ => .pure _
  | unreserve =>
      exact .bind (.bind (edits_settle_sends (permitted _ .unreserve) _) fun _ =>
        expectAccepted_sends _ _ _) fun _ => .pure _

private theorem create_sends {home : Instance} {drawn : Uuid} {now : UInt64}
    (permitted : allowed (Edit.mutation ⟨home, drawn⟩
      [.requireAbsent, .putStatus .new, .putCreateTime now])) :
    StoreStep.Sends allowed (create home drawn now : StoreStep Memory Id) := by
  refine .bind (edits_settle_sends permitted _) fun settled => ?_
  obtain ⟨outcome, seen⟩ := settled
  cases outcome with
  | accepted => exact .pure _
  | rejected => exact .throw _
  | unknown => exact .throw _

private theorem tryReserve_sends {id : Id} {lock : LockId} {drawn : Uuid}
    (permitted : allowed (Edit.mutation id
      [.requireStatus Status.all, .reserve ⟨lock, drawn⟩])) :
    StoreStep.Sends allowed (tryReserve id lock drawn : StoreStep Memory (Option Handle)) := by
  refine .bind (edits_settle_sends permitted _) fun settled => ?_
  obtain ⟨outcome, seen⟩ := settled
  cases outcome <;> exact .pure _

private theorem sweep_sends (isLive : LockId → Bool)
    (permitted : ∀ id reservation, allowed (Edit.mutation id [.release reservation]))
    (snapshots : List Snapshot) :
    StoreStep.Sends allowed (sweep isLive snapshots : StoreStep Memory Sweep) := by
  induction snapshots with
  | nil => exact .pure _
  | cons snapshot rest ih =>
      unfold sweep
      cases snapshot.reservation with
      | none => exact ih
      | some reservation =>
          simp only
          split
          · exact .bind ih fun _ => .pure _
          · refine .bind (edits_attempt_sends (permitted _ _)).outcome fun outcome => ?_
            cases outcome with
            | error error => exact .pure _
            | ok outcome => exact .bind ih fun _ => .pure _

private theorem releaseDead_sends (isLive : LockId → Bool)
    (permitted : ∀ id reservation, allowed (Edit.mutation id [.release reservation])) :
    StoreStep.Sends allowed (releaseDead isLive : StoreStep Memory Sweep) := by
  have reads : StoreStep.Sends allowed (list : StoreStep Memory (List Snapshot)) :=
    .bind (.scan _) fun _ => .ofExcept _
  refine .bind reads.outcome fun listed => ?_
  cases listed with
  | error error => exact .pure _
  | ok snapshots => exact sweep_sends isLive permitted snapshots

end Operations

/-! ## Requests -/

namespace Clients

theorem sent_answer (clients : Clients Memory) {allowed : Mutation → Prop}
    {step : StoreStep Memory Reply} (sends : StoreStep.Sends allowed step) :
    Memory.Sent allowed clients.store (clients.answer step).2.store := by
  have sent := sends clients.store
  unfold StoreStep.after at sent
  unfold answer
  cases result : step clients.store <;> simpa [result] using sent

/-- A request changes the store by the edits it sends and by nothing else. -/
theorem sent_perform (limit : UInt32) (clients : Clients Memory) (request : Request) :
    Memory.Sent (request.Submits clients.handles) clients.store
      (clients.perform limit request).2.store := by
  cases request with
  | create home drawn now =>
      have permitted : Request.Submits clients.handles (.create home drawn now) _ :=
        ⟨_, _, .create home drawn now, rfl⟩
      exact sent_answer clients (.bind (create_sends permitted) fun _ => .pure _)
  | tryReserve id lock drawn name =>
      have permitted : Request.Submits clients.handles (.tryReserve id lock drawn name) _ :=
        ⟨_, _, .tryReserve id lock drawn name, rfl⟩
      have sent := sent_answer clients
        (.bind (tryReserve_sends permitted) fun handle => .pure (.reserved handle))
      simp only [perform]
      split <;> exact sent
  | work name request =>
      simp only [perform]
      cases held : clients.handles.get? name with
      | none => exact .nothing
      | some handle =>
          have permitted : ∀ edits, handle.Sends request edits →
              Request.Submits clients.handles (.work name request)
                (Edit.mutation handle.transaction edits) :=
            fun edits sends => ⟨_, _, .work held sends, rfl⟩
          have sent := sent_answer clients (Handle.run_sends limit permitted)
          dsimp only
          split <;> exact sent
  | releaseDead isLive =>
      have permitted : ∀ id reservation,
          Request.Submits clients.handles (.releaseDead isLive)
            (Edit.mutation id [.release reservation]) :=
        fun id reservation => ⟨_, _, .releaseDead isLive id reservation, rfl⟩
      exact sent_answer clients (.bind (releaseDead_sends isLive permitted) fun _ => .pure _)

end Clients

end GuardedRows.Tx
