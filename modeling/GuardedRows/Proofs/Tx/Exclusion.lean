import GuardedRows.Proofs.Tx.Edits
import GuardedRows.Proofs.Tx.ReservationText
import GuardedRows.Proofs.Tx.Run

/-!
# Reservations exclude one another

The record of a transaction holds at most one reservation, every reservation is made with a
UUID of its own, and a handle changes nothing unless the record holds its reservation. So a
handle that has lost its reservation has lost it for good.
-/

set_option autoImplicit false

namespace GuardedRows.Tx

theorem Clients.rows_of_lost {limit : UInt32} {clients : Clients Memory} {name : String}
    {request : HandleRequest} {handle : Handle}
    (held : clients.handles.get? name = some handle) (lost : ¬handle.Matches clients.store) :
    (clients.perform limit (.work name request)).2.store.rows = clients.store.rows := by
  have included : ∀ mutation, Request.Submits clients.handles (.work name request) mutation →
      handle.Submits request mutation := by
    rintro mutation ⟨id, edits, sends, same⟩
    cases sends with
    | work found sends =>
        cases Option.some.inj (held.symm.trans found)
        exact ⟨edits, sends, same⟩
  have sent := sent_perform limit clients (.work name request)
  exact Handle.rows_of_lost (sent.mono included) lost

/-! ## Where reservations come from -/

theorem Request.Sends.drawn_of_reserve {handles : SortedMap String Handle} {request : Request}
    {id : Id} {edits : List Edit} {reservation : Reservation}
    (sends : request.Sends handles id edits) (among : .reserve reservation ∈ edits) :
    reservation.uuid ∈ request.drawn? := by
  cases sends with
  | create home drawn now => simp at among
  | tryReserve id lock drawn name =>
      obtain rfl : reservation = ⟨lock, drawn⟩ := by simpa using among
      rfl
  | work held sends => cases sends <;> simp [Handle.guarded] at among
  | releaseDead isLive id released => simp at among

theorem Request.reservation_of_sent {handles : SortedMap String Handle} {request : Request}
    {before later : Memory} (sent : Memory.Sent (request.Submits handles) before later)
    (row : String) :
    later.cell? row reservationColumn = before.cell? row reservationColumn ∨
      later.cell? row reservationColumn = none ∨
      ∃ reservation : Reservation, reservation.uuid ∈ request.drawn? ∧
        later.cell? row reservationColumn = some (Bytes.ofText reservation.text) := by
  induction sent with
  | nothing => exact .inl rfl
  | @more between mutation _ submits ih =>
      obtain ⟨id, edits, sends, rfl⟩ := submits
      rcases Edit.reservation_submit between id edits row with same | none | ⟨made, among, put⟩
      · rw [same]
        exact ih
      · exact .inr (.inl none)
      · exact .inr (.inr ⟨made, sends.drawn_of_reserve among, put⟩)

/-! ## Reservations that were issued -/

/-- Every reservation that is stored or held has a UUID that was drawn, and no two handles
share one. -/
structure Issued (uuids : List Uuid) (clients : Clients Memory) : Prop where
  stored : ∀ row bytes, clients.store.cell? row reservationColumn = some bytes →
    ∃ reservation : Reservation, reservation.uuid ∈ uuids ∧
      bytes = Bytes.ofText reservation.text
  held : ∀ name handle, clients.handles.get? name = some handle →
    handle.reservation.uuid ∈ uuids
  own : ∀ first second left right, clients.handles.get? first = some left →
    clients.handles.get? second = some right →
    left.reservation.uuid = right.reservation.uuid → first = second

namespace Issued

variable {limit : UInt32} {clients : Clients Memory} {uuids : List Uuid}

theorem start : Issued [] Clients.start where
  stored _ _ found := by cases found
  held _ _ held := by cases held
  own _ _ _ _ held := by cases held

theorem perform (issued : Issued uuids clients) (request : Request)
    (fresh : ∀ uuid ∈ request.drawn?, uuid ∉ uuids) :
    Issued (uuids ++ request.drawn?.toList) (clients.perform limit request).2 where
  stored row bytes found := by
    rcases Request.reservation_of_sent (Clients.sent_perform limit clients request) row with
      same | none | ⟨made, drawn, put⟩
    · obtain ⟨made, member, text⟩ := issued.stored row bytes (same.symm.trans found)
      exact ⟨made, List.mem_append_left _ member, text⟩
    · cases none.symm.trans found
    · cases put.symm.trans found
      exact ⟨made, List.mem_append_right _ (Option.mem_toList.mpr drawn), rfl⟩
  held name handle held := by
    rcases Clients.held_of_perform held with held | ⟨id, lock, drawn, rfl, rfl⟩
    · exact List.mem_append_left _ (issued.held name handle held)
    · exact List.mem_append_right _ (by simp [Request.drawn?])
  own first second left right heldFirst heldSecond same := by
    rcases Clients.held_of_perform heldFirst with oldFirst | ⟨id, lock, drawn, rfl, rfl⟩
    · rcases Clients.held_of_perform heldSecond with oldSecond | ⟨id, lock, drawn, rfl, rfl⟩
      · exact issued.own first second left right oldFirst oldSecond same
      · have known := issued.held first left oldFirst
        rw [same] at known
        exact absurd known (fresh drawn rfl)
    · rcases Clients.held_of_perform heldSecond with oldSecond | ⟨_, _, _, asked, _⟩
      · have known := issued.held second right oldSecond
        rw [← same] at known
        exact absurd known (fresh drawn rfl)
      · cases asked
        rfl

theorem step (issued : Issued uuids clients) (event : Event)
    (fresh : ∀ uuid ∈ event.drawn?, uuid ∉ uuids) :
    Issued (uuids ++ event.drawn?.toList) (clients.step limit event) := by
  cases event with
  | request request => exact issued.perform request fresh
  | fault fault =>
      have still : Issued uuids (clients.step limit (.fault fault)) :=
        ⟨issued.stored, issued.held, issued.own⟩
      simpa [Event.drawn?] using still

theorem run (issued : Issued uuids clients) (events : List Event)
    (distinct : (uuids ++ drawn events).Nodup) :
    Issued (uuids ++ drawn events) (clients.run limit events) := by
  induction events generalizing uuids clients with
  | nil => simpa [drawn, Clients.run] using issued
  | cons event rest ih =>
      rw [drawn_cons, ← List.append_assoc] at distinct ⊢
      have apart := (List.nodup_append.mp (List.nodup_append.mp distinct).1).2.2
      have fresh : ∀ uuid ∈ event.drawn?, uuid ∉ uuids := fun uuid made known =>
        apart uuid known uuid (Option.mem_toList.mpr made) rfl
      exact ih (issued.step event fresh) distinct

theorem uuid_mem_of_matches (issued : Issued uuids clients) {handle : Handle}
    (matching : handle.Matches clients.store) : handle.reservation.uuid ∈ uuids := by
  obtain ⟨made, member, same⟩ := issued.stored _ _ matching
  have texts := Bytes.ofText_injective same
  rw [Reservation.uuid_eq_of_text_eq texts]
  exact member

theorem eq_of_matches (issued : Issued uuids clients) {first second : String}
    {left right : Handle} (heldFirst : clients.handles.get? first = some left)
    (heldSecond : clients.handles.get? second = some right)
    (shared : left.transaction = right.transaction) (matchesFirst : left.Matches clients.store)
    (matchesSecond : right.Matches clients.store) : first = second := by
  unfold Handle.Matches at matchesFirst matchesSecond
  rw [shared, matchesSecond] at matchesFirst
  have texts := Bytes.ofText_injective (Option.some.inj matchesFirst)
  exact issued.own first second left right heldFirst heldSecond
    (Reservation.uuid_eq_of_text_eq texts).symm

end Issued

/-! ## Handles that have lost their reservation -/

section Lost

variable {limit : UInt32} {clients : Clients Memory} {handle : Handle}

private theorem lost_step {event : Event} (old : ∀ uuid ∈ event.drawn?,
    handle.reservation.uuid ≠ uuid) (lost : ¬handle.Matches clients.store) :
    ¬handle.Matches (clients.step limit event).store := by
  cases event with
  | fault fault => exact lost
  | request request =>
      intro matching
      rcases Request.reservation_of_sent (Clients.sent_perform limit clients request)
          handle.transaction.text with same | none | ⟨made, drawn, put⟩
      · exact lost (same.symm.trans matching)
      · cases none.symm.trans matching
      · have texts := Bytes.ofText_injective (Option.some.inj (put.symm.trans matching))
        exact old made.uuid drawn (Reservation.uuid_eq_of_text_eq texts).symm

theorem lost_run {events : List Event} (old : handle.reservation.uuid ∉ drawn events)
    (lost : ¬handle.Matches clients.store) :
    ¬handle.Matches (clients.run limit events).store := by
  induction events generalizing clients with
  | nil => exact lost
  | cons event rest ih =>
      rw [drawn_cons, List.mem_append, not_or] at old
      refine ih old.2 (lost_step (fun uuid made same => old.1 ?_) lost)
      rw [same]
      exact Option.mem_toList.mpr made

end Lost

/-- Reservations in a run that never draws a UUID twice: a handle that does not match the
record of its transaction changes nothing, no two handles of a transaction match, and a
handle that has matched and no longer does never will again. -/
theorem reservations_exclude (limit : UInt32) (events : List Event)
    (distinct : (drawn events).Nodup) :
    (∀ name handle request,
      (Clients.start.run limit events).handles.get? name = some handle →
      ¬handle.Matches (Clients.start.run limit events).store →
      ((Clients.start.run limit events).perform limit (.work name request)).2.store.rows =
        (Clients.start.run limit events).store.rows) ∧
    (∀ first second left right,
      (Clients.start.run limit events).handles.get? first = some left →
      (Clients.start.run limit events).handles.get? second = some right →
      left.transaction = right.transaction →
      left.Matches (Clients.start.run limit events).store →
      right.Matches (Clients.start.run limit events).store → first = second) ∧
    (∀ before between after, events = before ++ between ++ after →
      ∀ handle : Handle, handle.Matches (Clients.start.run limit before).store →
        ¬handle.Matches (Clients.start.run limit (before ++ between)).store →
        ¬handle.Matches (Clients.start.run limit events).store) := by
  refine ⟨?_, ?_, ?_⟩
  · intro name handle request held lost
    exact Clients.rows_of_lost held lost
  · intro first second left right heldFirst heldSecond shared matchesFirst matchesSecond
    have issued : Issued (drawn events) (Clients.start.run limit events) :=
      Issued.start.run events distinct
    exact issued.eq_of_matches heldFirst heldSecond shared matchesFirst matchesSecond
  · rintro before between after rfl handle matched lost
    rw [drawn_append, drawn_append] at distinct
    obtain ⟨earlier, _, apart⟩ := List.nodup_append.mp distinct
    have issued : Issued (drawn before) (Clients.start.run limit before) :=
      Issued.start.run before (List.nodup_append.mp earlier).1
    have known := List.mem_append_left (drawn between) (issued.uuid_mem_of_matches matched)
    rw [Clients.run_append]
    exact lost_run (fun again => apart _ known _ again rfl) lost

def handOver : List Event :=
  reserved "first" ++
    [.request (.work "first" .unreserve),
      .request (.tryReserve ⟨.user, uuidOf 1⟩ ⟨"p", "n", 7⟩ (uuidOf 3) "second")]

theorem reservations_exclude_handOver :
    ¬(⟨⟨.user, uuidOf 1⟩, ⟨⟨"p", "n", 7⟩, uuidOf 2⟩⟩ : Handle).Matches
      (Clients.start.run 100 handOver).store := by
  refine (reservations_exclude 100 handOver (by decide)).2.2 (handOver.take 2)
    ((handOver.drop 2).take 1) (handOver.drop 3) rfl _ rfl ?_
  unfold Handle.Matches
  decide +kernel

end GuardedRows.Tx
