import GuardedRows.Proofs.Tx.Reading
import GuardedRows.Proofs.Tx.Register
import GuardedRows.Proofs.Tx.StackRun

/-!
# What a status lets happen

A stack grows only in a transaction that is new or in progress, and loses its top only in one
that is done or being undone. A record goes away only if no work is under way, and comes only
by a creation. Each of the first three is asked for by the holder of the reservation.
-/

set_option autoImplicit false

namespace GuardedRows.Tx

open StoreStep

/-- The status of the transaction is one of these. -/
def Id.StatusIn (id : Id) (store : Memory) (statuses : List Status) : Prop :=
  ∃ status ∈ statuses, id.status? store = some status

/-- The event is this request about a transaction, through a handle whose reservation the
record holds. -/
def Clients.Asks (clients : Clients Memory) (event : Event) (id : Id)
    (asked : HandleRequest) : Prop :=
  ∃ name handle, event = .request (.work name asked) ∧
    clients.handles.get? name = some handle ∧ handle.transaction = id ∧
    handle.Matches clients.store

/-! ## Edits that land -/

theorem Handle.Sends.matches_of_lands {handle : Handle} {request : HandleRequest}
    {edits : List Edit} {store : Memory} (sends : handle.Sends request edits)
    (landed : store.lands (Edit.mutation handle.transaction edits) = true) :
    handle.Matches store :=
  Condition.holds_equals.mp (Memory.holds_of_lands landed sends.guarded)

theorem Handle.acted_done {handle : Handle} {act : Act} {edits : List Edit}
    {store later : Memory} (done : handle.acted act edits store = .ok () later) :
    store.lands (Edit.mutation handle.transaction edits) = true ∧
      later = (store.submit (Edit.mutation handle.transaction edits)).2 := by
  unfold acted at done
  dsimp only at done
  split at done
  · next landed =>
      cases done
      exact ⟨landed, rfl⟩
  · cases done

namespace Stacks

variable {limit : UInt32} {piles : Id → List Bytes} {store later : Memory} {id : Id}
  {handle : Handle}

theorem statusIn_of_lands (holds : Stacks limit piles store) {edits : List Edit}
    {statuses : List Status}
    (asked : .oneOf statusColumn (statuses.map fun status => Bytes.ofText status.text) ∈
      (Edit.mutation id edits).conditions)
    (landed : store.lands (Edit.mutation id edits) = true) : id.StatusIn store statuses := by
  have named := Memory.holds_of_lands landed asked
  obtain ⟨bytes, cell, among⟩ := (Option.any_eq_true _ _).mp named
  obtain ⟨status, member, rfl⟩ := List.mem_map.mp (List.contains_iff_mem.mp among)
  exact ⟨status, member, holds.status?_of_cell cell⟩

theorem of_push_done (holds : Stacks limit piles store) {step : Bytes}
    (done : handle.push limit step store = .ok () later) :
    handle.Matches store ∧ handle.transaction.StatusIn store [.new, .inProgress] := by
  rcases holds.push_cases handle step with ⟨error, failed⟩ | ⟨_, acts⟩
  · cases failed.symm.trans done
  · obtain ⟨landed, _⟩ := Handle.acted_done (acts.symm.trans done)
    refine ⟨(Handle.Sends.push _ step).matches_of_lands landed, ?_⟩
    exact holds.statusIn_of_lands (.tail _ List.mem_cons_self) landed

theorem of_pop_done (holds : Stacks limit piles store)
    (done : handle.pop store = .ok () later) :
    handle.Matches store ∧
      handle.transaction.StatusIn store [.failedInProgress, .successful] := by
  rcases holds.pop_cases handle with ⟨error, failed⟩ | ⟨top, below, _, acts⟩
  · cases failed.symm.trans done
  · obtain ⟨landed, _⟩ := Handle.acted_done (acts.symm.trans done)
    refine ⟨(Handle.Sends.pop _).matches_of_lands landed, ?_⟩
    exact holds.statusIn_of_lands (.tail _ List.mem_cons_self) landed

theorem of_delete_landed (holds : Stacks limit piles store)
    (landed : store.lands (Edit.mutation handle.transaction (deleteEdits handle)) = true) :
    handle.Matches store ∧
      handle.transaction.StatusIn store [.new, .submitted, .successful, .failed] :=
  ⟨Handle.Sends.delete.matches_of_lands landed,
    holds.statusIn_of_lands (.tail _ List.mem_cons_self) landed⟩

end Stacks

/-! ## Answers -/

namespace Clients

variable {limit : UInt32} {clients : Clients Memory} {handle : Handle}

theorem perform_work (limit : UInt32) {name : String}
    (held : clients.handles.get? name = some handle) (asked : HandleRequest) :
    (clients.perform limit (.work name asked)).1 =
        (clients.answer (asked.run limit handle)).1 ∧
      (clients.perform limit (.work name asked)).2.store =
        (clients.answer (asked.run limit handle)).2.store := by
  simp only [perform, held]
  split <;> exact ⟨rfl, rfl⟩

theorem ok_of_answer_done {step : StoreStep Memory Unit}
    (done : (clients.answer (do step; return .done)).1 = .done) :
    step clients.store = .ok () (clients.answer (do step; return .done)).2.store := by
  unfold answer at done ⊢
  cases ran : step clients.store with
  | ok value later =>
      rw [bind_of_ok ran]
      rfl
  | error error later =>
      rw [bind_of_error ran] at done
      cases done

theorem store_answer {α : Type} (step : StoreStep Memory α) (reply : α → Reply) :
    (clients.answer do return reply (← step)).2.store = step.after clients.store := by
  unfold answer StoreStep.after
  cases ran : step clients.store with
  | ok value later =>
      rw [bind_of_ok ran]
      rfl
  | error error later => rw [bind_of_error ran]

theorem store_create (home : Instance) (drawn : Uuid) (now : UInt64) :
    (clients.perform limit (.create home drawn now)).2.store =
      (clients.store.submit (Edit.mutation ⟨home, drawn⟩ (createEdits now))).2 :=
  (store_answer (create home drawn now) .created).trans
    (StoreStep.after_of_ite (create_eq home drawn now clients.store))

theorem store_delete (limit : UInt32) {name : String}
    (held : clients.handles.get? name = some handle) :
    (clients.perform limit (.work name .delete)).2.store =
      (clients.store.submit
        (Edit.mutation handle.transaction (Stacks.deleteEdits handle))).2 := by
  have ran : handle.delete clients.store = _ := handle.settled_eq .delete
    (Stacks.deleteEdits handle) rfl (fun current => current.isNone) clients.store
  rw [(perform_work limit held .delete).2, ← StoreStep.after_of_ite ran]
  exact store_answer handle.delete fun _ => .done

end Clients

theorem Reply.done_of_count_ne {reply : Reply} {asked : HandleRequest} {stack : List Bytes}
    (changed : reply.count asked stack ≠ stack) :
    reply = .done ∧ asked.onStack stack ≠ stack := by
  cases reply with
  | done => exact ⟨rfl, changed⟩
  | _ => exact absurd rfl changed

/-! ## Events that change a stack -/

/-- The ways in which an event changes the stack of a transaction. -/
inductive Clients.Restacks (limit : UInt32) (clients : Clients Memory) (event : Event) (id : Id)
    (stack : List Bytes) : List Bytes → Prop where
  | push (step : Bytes) :
      clients.Asks event id (.push step) →
      id.StatusIn clients.store [.new, .inProgress] →
      Restacks limit clients event id stack (step :: stack)
  | pop :
      clients.Asks event id .pop →
      id.StatusIn clients.store [.failedInProgress, .successful] →
      Restacks limit clients event id stack stack.tail
  | delete :
      (clients.step limit event).store.read id.text = none →
      Restacks limit clients event id stack []

namespace Stacks

variable {limit : UInt32} {piles : Id → List Bytes} {clients : Clients Memory}

/-- Only work through a handle that is answered as done changes a stack. -/
private theorem work_of_count_ne {event : Event} {id : Id}
    (changed : clients.count limit piles event id ≠ piles id) :
    ∃ name asked handle, event = .request (.work name asked) ∧
      clients.handles.get? name = some handle ∧ handle.transaction = id ∧
      (clients.answer (asked.run limit handle)).1 = .done ∧
      asked.onStack (piles id) ≠ piles id ∧
      clients.count limit piles event id = asked.onStack (piles id) := by
  cases event with
  | fault fault => exact absurd rfl changed
  | request request =>
      cases request with
      | create home drawn now => exact absurd rfl changed
      | tryReserve id lock drawn name => exact absurd rfl changed
      | releaseDead isLive => exact absurd rfl changed
      | work name asked =>
          simp only [Clients.count] at changed ⊢
          cases held : clients.handles.get? name with
          | none => simp [held] at changed
          | some handle =>
              obtain ⟨reply, _⟩ := Clients.perform_work limit held asked
              simp only [held, setStack, reply] at changed ⊢
              by_cases same : id = handle.transaction
              · subst same
                rw [if_pos rfl] at changed ⊢
                obtain ⟨done, moves⟩ := Reply.done_of_count_ne changed
                refine ⟨name, asked, handle, rfl, held, rfl, done, moves, ?_⟩
                rw [done]
                rfl
              · rw [if_neg same] at changed
                exact absurd rfl changed

private theorem read_of_delete_done (holds : Stacks limit piles clients.store) {name : String}
    {handle : Handle} (held : clients.handles.get? name = some handle)
    (done : (clients.answer (HandleRequest.delete.run limit handle)).1 = .done)
    (occupied : piles handle.transaction ≠ []) :
    (clients.perform limit (.work name .delete)).2.store.read handle.transaction.text = none := by
  obtain ⟨record, found⟩ := holds.exists_of_ne_nil occupied
  have removed := Clients.ok_of_answer_done done
  rw [holds.delete_eq found] at removed
  obtain ⟨landed, _⟩ := Handle.acted_done removed
  rw [Clients.store_delete limit held, Edit.read_submit, if_pos ⟨rfl, landed⟩]
  rfl

/-- An event that changes a stack is an answered push, pop or removal of its transaction. -/
theorem restacks (holds : Stacks limit piles clients.store) {event : Event} {id : Id}
    (changed : clients.count limit piles event id ≠ piles id) :
    clients.Restacks limit event id (piles id) (clients.count limit piles event id) := by
  obtain ⟨name, asked, handle, rfl, held, rfl, done, moves, count⟩ := work_of_count_ne changed
  rw [count]
  cases asked with
  | push step =>
      obtain ⟨guarded, status⟩ := holds.of_push_done (Clients.ok_of_answer_done done)
      exact .push step ⟨name, handle, rfl, held, rfl, guarded⟩ status
  | pop =>
      obtain ⟨guarded, status⟩ := holds.of_pop_done (Clients.ok_of_answer_done done)
      exact .pop ⟨name, handle, rfl, held, rfl, guarded⟩ status
  | delete => exact .delete (holds.read_of_delete_done held done moves.symm)
  | _ => exact absurd rfl moves

/-! ## What an event does to a transaction -/

variable {id : Id} {event : Event} {position : UInt32}

private theorem restacks_of_positions (holds : Stacks limit piles clients.store)
    (changed : id.positions (clients.step limit event).store ≠ id.positions clients.store) :
    ∃ later, clients.Restacks limit event id (piles id) later ∧
      id.positions (clients.step limit event).store = (stackSteps later).map Prod.fst := by
  have after := (holds.step event).positions_eq id
  refine ⟨_, holds.restacks fun same => changed ?_, after⟩
  rw [after, same, holds.positions_eq]

theorem mem_positions_of_tail {stack : List Bytes}
    (member : position ∈ (stackSteps stack.tail).map Prod.fst) :
    position ∈ (stackSteps stack).map Prod.fst := by
  cases stack with
  | nil => exact member
  | cons top below => exact List.mem_cons_of_mem _ member

theorem asked_push (holds : Stacks limit piles clients.store)
    (added : position ∈ id.positions (clients.step limit event).store)
    (fresh : position ∉ id.positions clients.store) :
    ∃ step, clients.Asks event id (.push step) ∧
      id.StatusIn clients.store [.new, .inProgress] := by
  obtain ⟨later, restacks, after⟩ :=
    holds.restacks_of_positions fun same => fresh (same ▸ added)
  rw [after] at added
  rw [holds.positions_eq] at fresh
  cases restacks with
  | push step asks status => exact ⟨step, asks, status⟩
  | pop => exact absurd (mem_positions_of_tail added) fresh
  | delete => cases added

theorem asked_pop (holds : Stacks limit piles clients.store)
    (old : position ∈ id.positions clients.store)
    (lost : position ∉ id.positions (clients.step limit event).store)
    (stored : ((clients.step limit event).store.read id.text).isSome = true) :
    clients.Asks event id .pop ∧
      id.StatusIn clients.store [.failedInProgress, .successful] := by
  obtain ⟨later, restacks, after⟩ :=
    holds.restacks_of_positions fun same => lost (same ▸ old)
  rw [after] at lost
  rw [holds.positions_eq] at old
  cases restacks with
  | push => exact absurd (List.mem_cons_of_mem _ old) lost
  | pop asks status => exact ⟨asks, status⟩
  | delete gone =>
      rw [gone] at stored
      cases stored

theorem asked_delete (holds : Stacks limit piles clients.store) {uuids : List Uuid}
    (registered : Registered uuids clients.store)
    (stored : (clients.store.read id.text).isSome = true)
    (gone : (clients.step limit event).store.read id.text = none) :
    clients.Asks event id .delete ∧
      id.StatusIn clients.store [.new, .submitted, .successful, .failed] := by
  cases event with
  | fault fault =>
      have still : clients.store.read id.text = none := gone
      rw [still] at stored
      cases stored
  | request request =>
      have sent := Clients.sent_perform limit clients request
      have removal : ∃ name, request = .work name .delete :=
        registered.removal_of_sent sent stored gone
      obtain ⟨name, rfl⟩ := removal
      cases held : clients.handles.get? name with
      | none =>
          have still : clients.store.read id.text = none := by
            simpa [Clients.step, Clients.perform, held] using gone
          rw [still] at stored
          cases stored
      | some handle =>
          have removed : (clients.store.submit (Edit.mutation handle.transaction
              (deleteEdits handle))).2.read id.text = none := by
            rw [← Clients.store_delete limit held]
            exact gone
          rw [Edit.read_submit] at removed
          split at removed
          · next landed =>
              obtain ⟨row, landed⟩ := landed
              obtain rfl := Id.text_injective row
              obtain ⟨guarded, status⟩ := holds.of_delete_landed landed
              exact ⟨⟨name, handle, rfl, held, rfl, guarded⟩, status⟩
          · rw [removed] at stored
            cases stored

theorem created (holds : Stacks limit piles clients.store) {row : String}
    (absent : clients.store.read row = none)
    (stored : ((clients.step limit event).store.read row).isSome = true) :
    ∃ home drawn now, event = .request (.create home drawn now) ∧
      row = Id.text ⟨home, drawn⟩ ∧
      Id.status? ⟨home, drawn⟩ (clients.step limit event).store = some .new ∧
      Id.reservation? ⟨home, drawn⟩ (clients.step limit event).store = none ∧
      Id.positions ⟨home, drawn⟩ (clients.step limit event).store = [] := by
  have later := holds.step event
  cases event with
  | fault fault =>
      have still : (clients.store.read row).isSome = true := stored
      rw [absent] at still
      cases still
  | request request =>
      have sent := Clients.sent_perform limit clients request
      obtain ⟨home, drawn, now, rfl, rfl⟩ := Request.created_of_sent sent absent stored
      have store : (clients.step limit (.request (.create home drawn now))).store = _ :=
        Clients.store_create home drawn now
      have empty : ∀ column, clients.store.cell? (Id.text ⟨home, drawn⟩) column = none := by
        intro column
        rw [Memory.cell?, absent]
        rfl
      have landed : clients.store.lands
          (Edit.mutation ⟨home, drawn⟩ (createEdits now)) = true := by
        rw [store, Edit.read_submit] at stored
        split at stored
        · next landed => exact landed.2
        · rw [absent] at stored
          cases stored
      refine ⟨home, drawn, now, rfl, rfl, later.status?_of_cell ?_,
        later.reservation?_of_no_cell ?_, ?_⟩
      · rw [store, Edit.cell?_submit, if_pos ⟨rfl, landed⟩]
        rfl
      · rw [store, Edit.cell?_submit, if_pos ⟨rfl, landed⟩, empty]
        rfl
      · have none : piles ⟨home, drawn⟩ = [] := holds.eq_nil_of_absent absent
        have count : clients.count limit piles (.request (.create home drawn now)) = piles := rfl
        rw [later.positions_eq, count, none]
        rfl

end Stacks

/-- In every run and for every event of it: the steps of a transaction become more only by a
push to one that is new or in progress, and fewer in a record that stays only by a pop from
one that is being undone or successful. A record goes away only by a removal of one on which
no work is under way. All three are asked for through a handle whose reservation the record
holds. A record appears only by a creation, as new, unreserved and without steps. -/
theorem Clients.changes_gated (limit : UInt32) (events : List Event) (event : Event) :
    let clients := start.run limit events
    let before := clients.store
    let after := (clients.step limit event).store
    (∀ id : Id, (id.snapshot? before).isSome = (before.read id.text).isSome ∧
      (id.snapshot? after).isSome = (after.read id.text).isSome ∧
      (∀ position ∈ id.positions after, position ∉ id.positions before →
        ∃ step, clients.Asks event id (.push step) ∧
          id.StatusIn before [.new, .inProgress]) ∧
      (∀ position ∈ id.positions before, position ∉ id.positions after →
        (after.read id.text).isSome = true →
        clients.Asks event id .pop ∧
          id.StatusIn before [.failedInProgress, .successful]) ∧
      ((before.read id.text).isSome = true → after.read id.text = none →
        clients.Asks event id .delete ∧
          id.StatusIn before [.new, .submitted, .successful, .failed])) ∧
    ∀ row, before.read row = none → (after.read row).isSome = true →
      ∃ home drawn now, event = .request (.create home drawn now) ∧
        row = Id.text ⟨home, drawn⟩ ∧
        Id.status? ⟨home, drawn⟩ after = some .new ∧
        Id.reservation? ⟨home, drawn⟩ after = none ∧
        Id.positions ⟨home, drawn⟩ after = [] := by
  intro clients before after
  have holds : Stacks limit _ before := (Stacks.start limit).run events
  have registered : Registered (drawn events) before :=
    (Registered.empty.run events : Registered ([] ++ drawn events) _)
  refine ⟨fun id => ⟨holds.isSome_snapshot? id, (holds.step event).isSome_snapshot? id,
    fun position added fresh => ?_, fun position old lost stored => ?_,
    fun stored gone => ?_⟩, fun row absent stored => ?_⟩
  · exact holds.asked_push added fresh
  · exact holds.asked_pop old lost stored
  · exact holds.asked_delete registered stored gone
  · exact holds.created absent stored

theorem Clients.changes_gated_firstPush :
    (⟨.user, uuidOf 1⟩ : Id).StatusIn (start.run 100 (reserved "worker")).store
      [.new, .inProgress] := by
  let id : Id := ⟨.user, uuidOf 1⟩
  let push : Event := .request (.work "worker" (.push [7]))
  let before := start.run 100 (reserved "worker")
  have grows : 1 ∈ id.positions (before.step 100 push).store ∧ 1 ∉ id.positions before.store := by
    decide +kernel
  have gated := (changes_gated 100 (reserved "worker") push).1 id
  obtain ⟨step, _, status⟩ := gated.2.2.1 1 grows.1 grows.2
  exact status

end GuardedRows.Tx
