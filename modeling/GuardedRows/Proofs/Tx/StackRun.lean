import GuardedRows.Codec.Stored
import GuardedRows.Proofs.Tx.Run
import GuardedRows.Proofs.Tx.StackOperations

/-!
# Stacks over whole runs

A push or a pop counts if it was answered as done, and a removal empties the stack. Counted
this way, the piles of a run are at all times what the step columns hold, whatever is hidden
from the workers and whichever of them have lost their reservations.
-/

set_option autoImplicit false

namespace GuardedRows.Tx

open StoreStep

def HandleRequest.onStack : HandleRequest → List Bytes → List Bytes
  | .push step, stack => step :: stack
  | .pop, stack => stack.tail
  | .delete, _ => []
  | _, stack => stack

/-- A request counts if it was answered as done. -/
def Reply.count (reply : Reply) (request : HandleRequest) (stack : List Bytes) : List Bytes :=
  match reply with
  | .done => request.onStack stack
  | _ => stack

theorem setStack_self (piles : Id → List Bytes) (id : Id) :
    setStack piles id (piles id) = piles := by
  funext other
  unfold setStack
  split
  · next same => rw [same]
  · rfl

namespace Stacks

variable {limit : UInt32} {piles : Id → List Bytes} {clients : Clients Memory}
  {store later : Memory} {handle : Handle}

theorem of_sent (holds : Stacks limit piles store)
    (sent : Memory.Sent (fun mutation => ∃ id edits,
      edits.any Edit.changesSteps = false ∧ mutation = Edit.mutation id edits)
      store later) : Stacks limit piles later := by
  induction sent with
  | nothing => exact holds
  | more _ submits ih =>
      obtain ⟨id, edits, leaves, rfl⟩ := submits
      exact ih.submit_of_leavesSteps leaves

theorem of_rows (holds : Stacks limit piles store) (same : later.rows = store.rows) :
    Stacks limit piles later := by
  obtain ⟨rows, faults, accepted, rejected⟩ := later
  cases same
  exact ⟨⟨holds.filed.row, holds.filed.cell⟩, holds.reservation, holds.steps, holds.within⟩

/-! ## Work through a handle -/

private theorem answer_acted {step : StoreStep Memory Unit} {act : Act} {edits : List Edit}
    {request : HandleRequest}
    (acts : step clients.store = handle.acted act edits clients.store)
    (holds : Stacks limit
      (stacksAfter piles clients.store handle.transaction edits
        (request.onStack (piles handle.transaction)))
      (clients.store.submit (Edit.mutation handle.transaction edits)).2) :
    Stacks limit
      (setStack piles handle.transaction
        ((clients.answer (do step; return .done)).1.count request (piles handle.transaction)))
      (clients.answer (do step; return .done)).2.store := by
  unfold Handle.acted at acts
  unfold stacksAfter at holds
  unfold Clients.answer
  cases landed : clients.store.lands (Edit.mutation handle.transaction edits) with
  | true =>
      rw [landed, if_pos rfl] at acts holds
      rw [bind_of_ok acts]
      exact holds
  | false =>
      rw [landed, if_neg Bool.false_ne_true] at acts holds
      rw [bind_of_error acts]
      simpa only [Reply.count, setStack_self] using holds

private theorem answer_of_leavesSteps (holds : Stacks limit piles clients.store)
    {request : HandleRequest} (still : ∀ stack, request.onStack stack = stack)
    (leaves : ∀ edits, handle.Sends request edits → edits.any Edit.changesSteps = false) :
    Stacks limit
      (setStack piles handle.transaction ((clients.answer (request.run limit handle)).1.count
        request (piles handle.transaction)))
      (clients.answer (request.run limit handle)).2.store := by
  have count : ∀ reply : Reply, reply.count request (piles handle.transaction) =
      piles handle.transaction := by
    intro reply
    cases reply <;> first | rfl | exact still _
  rw [count, setStack_self]
  exact holds.of_sent (clients.sent_answer (Handle.run_sends limit
    fun edits sends => ⟨_, edits, leaves edits sends, rfl⟩))

private theorem answer_of_error (holds : Stacks limit piles clients.store)
    {step : StoreStep Memory Unit} {error : Error} (request : HandleRequest) (id : Id)
    (failed : step clients.store = .error error clients.store) :
    Stacks limit
      (setStack piles id
        ((clients.answer (do step; return .done)).1.count request (piles id)))
      (clients.answer (do step; return .done)).2.store := by
  unfold Clients.answer
  rw [bind_of_error failed]
  simpa only [Reply.count, setStack_self] using holds

private theorem read_of_absent (absent : store.read handle.transaction.text = none) :
    handle.read store = .error (.refused (.missing handle.transaction)) store := by
  unfold Handle.read
  rw [bind_of_ok (find_of_absent absent)]
  rfl

/-- A push fails and leaves the store alone, or there is room and it is done just if its edits
land. -/
theorem push_cases (holds : Stacks limit piles store) (handle : Handle) (step : Bytes) :
    (∃ error, handle.push limit step store = .error error store) ∨
      (piles handle.transaction).length < limit.toNat ∧
        handle.push limit step store =
          handle.acted (.push (positionOn (piles handle.transaction)))
            (pushEdits handle step (piles handle.transaction)) store := by
  cases found : store.read handle.transaction.text with
  | none => exact .inl ⟨_, bind_of_error (read_of_absent found) _⟩
  | some record =>
      have pushed := holds.push_eq step found
      by_cases full : limit.toNat ≤ (piles handle.transaction).length
      · rw [if_pos full] at pushed
        exact .inl ⟨_, pushed⟩
      · rw [if_neg full] at pushed
        exact .inr ⟨Nat.lt_of_not_le full, pushed⟩

/-- A pop fails and leaves the store alone, or there is a top and it is done just if its edits
land. -/
theorem pop_cases (holds : Stacks limit piles store) (handle : Handle) :
    (∃ error, handle.pop store = .error error store) ∨
      ∃ top below, piles handle.transaction = top :: below ∧
        handle.pop store = handle.acted (.pop (positionOn below)) (popEdits handle below) store := by
  cases found : store.read handle.transaction.text with
  | none => exact .inl ⟨_, bind_of_error (read_of_absent found) _⟩
  | some record =>
      have popped := holds.pop_eq found
      cases shape : piles handle.transaction with
      | nil =>
          rw [shape] at popped
          exact .inl ⟨_, popped⟩
      | cons top below =>
          rw [shape] at popped
          exact .inr ⟨top, below, rfl, popped⟩

private theorem answer_push (holds : Stacks limit piles clients.store) (handle : Handle)
    (step : Bytes) :
    Stacks limit
      (setStack piles handle.transaction
        ((clients.answer ((HandleRequest.push step).run limit handle)).1.count (.push step)
          (piles handle.transaction)))
      (clients.answer ((HandleRequest.push step).run limit handle)).2.store := by
  rcases holds.push_cases handle step with ⟨error, failed⟩ | ⟨room, pushed⟩
  · exact holds.answer_of_error _ _ failed
  · exact answer_acted pushed (holds.submit_push handle step room)

private theorem answer_pop (holds : Stacks limit piles clients.store) (handle : Handle) :
    Stacks limit
      (setStack piles handle.transaction
        ((clients.answer (HandleRequest.pop.run limit handle)).1.count .pop
          (piles handle.transaction)))
      (clients.answer (HandleRequest.pop.run limit handle)).2.store := by
  rcases holds.pop_cases handle with ⟨error, failed⟩ | ⟨top, below, shape, popped⟩
  · exact holds.answer_of_error _ _ failed
  · have rest : HandleRequest.pop.onStack (piles handle.transaction) = below := by
      rw [shape]
      rfl
    refine answer_acted popped ?_
    rw [rest]
    exact holds.submit_pop shape

private theorem answer_delete (holds : Stacks limit piles clients.store) (handle : Handle) :
    Stacks limit
      (setStack piles handle.transaction
        ((clients.answer (HandleRequest.delete.run limit handle)).1.count .delete
          (piles handle.transaction)))
      (clients.answer (HandleRequest.delete.run limit handle)).2.store := by
  cases found : clients.store.read handle.transaction.text with
  | none =>
      have empty := holds.eq_nil_of_absent found
      have count : ∀ reply : Reply, reply.count .delete (piles handle.transaction) =
          piles handle.transaction := by
        intro reply
        rw [empty]
        cases reply <;> rfl
      have lost : ¬handle.Matches clients.store := by
        simp [Handle.Matches, Memory.cell?, found]
      rw [count, setStack_self]
      have sent : Memory.Sent (handle.Submits .delete) clients.store _ := clients.sent_answer
        (Handle.run_sends limit fun edits sends => ⟨edits, sends, rfl⟩)
      exact holds.of_rows (Handle.rows_of_lost sent lost)
  | some record => exact answer_acted (holds.delete_eq found) (holds.submit_delete handle)

/-- What is answered through a handle counts just as it changes the store. -/
theorem answer (holds : Stacks limit piles clients.store) (handle : Handle)
    (request : HandleRequest) :
    Stacks limit
      (setStack piles handle.transaction ((clients.answer (request.run limit handle)).1.count
        request (piles handle.transaction)))
      (clients.answer (request.run limit handle)).2.store := by
  cases request with
  | push step => exact holds.answer_push handle step
  | pop => exact holds.answer_pop handle
  | delete => exact holds.answer_delete handle
  | status =>
      exact holds.answer_of_leavesSteps (fun _ => rfl) fun edits sends => by cases sends
  | top =>
      exact holds.answer_of_leavesSteps (fun _ => rfl) fun edits sends => by cases sends
  | setStatus status =>
      refine holds.answer_of_leavesSteps (fun _ => rfl) fun edits sends => ?_
      cases sends
      rfl
  | setInfo info value =>
      refine holds.answer_of_leavesSteps (fun _ => rfl) fun edits sends => ?_
      cases sends
      rfl
  | unreserve =>
      refine holds.answer_of_leavesSteps (fun _ => rfl) fun edits sends => ?_
      cases sends
      rfl

end Stacks

/-! ## Runs -/

namespace Clients

def count (limit : UInt32) (clients : Clients Memory) (piles : Id → List Bytes) :
    Event → Id → List Bytes
  | .request (.work name asked) =>
      match clients.handles.get? name with
      | none => piles
      | some handle =>
          setStack piles handle.transaction
            ((clients.perform limit (.work name asked)).1.count asked
              (piles handle.transaction))
  | _ => piles

/-- The stacks after some events, going by the answers. -/
def stacksOf (limit : UInt32) (clients : Clients Memory) (piles : Id → List Bytes) :
    List Event → Id → List Bytes
  | [] => piles
  | event :: rest =>
      stacksOf limit (clients.step limit event) (clients.count limit piles event) rest

end Clients

namespace Stacks

variable {limit : UInt32} {piles : Id → List Bytes} {clients : Clients Memory}

private theorem perform_of_leavesSteps (holds : Stacks limit piles clients.store)
    {request : Request} (leaves : ∀ id edits, request.Sends clients.handles id edits →
      edits.any Edit.changesSteps = false) :
    Stacks limit piles (clients.perform limit request).2.store := by
  refine holds.of_sent ((clients.sent_perform limit request).mono ?_)
  rintro mutation ⟨id, edits, sends, same⟩
  exact ⟨id, edits, leaves id edits sends, same⟩

theorem step (holds : Stacks limit piles clients.store) (event : Event) :
    Stacks limit (clients.count limit piles event) (clients.step limit event).store := by
  cases event with
  | fault fault => exact holds.of_rows rfl
  | request request =>
      cases request with
      | work name asked =>
          simp only [Clients.count, Clients.step, Clients.perform]
          cases held : clients.handles.get? name with
          | none => exact holds
          | some handle =>
              have answered := holds.answer handle asked
              dsimp only
              split <;> exact answered
      | create home drawn now =>
          refine holds.perform_of_leavesSteps fun id edits sends => ?_
          cases sends
          rfl
      | tryReserve id lock drawn name =>
          refine holds.perform_of_leavesSteps fun id edits sends => ?_
          cases sends
          rfl
      | releaseDead isLive =>
          refine holds.perform_of_leavesSteps fun id edits sends => ?_
          cases sends
          rfl

theorem run (holds : Stacks limit piles clients.store) (events : List Event) :
    Stacks limit (clients.stacksOf limit piles events) (clients.run limit events).store := by
  induction events generalizing clients piles with
  | nil => exact holds
  | cons event rest ih => exact ih (holds.step event)

theorem start (limit : UInt32) : Stacks limit (fun _ => []) Clients.start.store where
  filed := .empty
  reservation _ _ cell := by cases cell
  steps _ _ _ := rfl
  within _ := Nat.zero_le _

/-- Every store that a run can leave keeps stacks, whatever faults are in wait. -/
theorem reached (limit : UInt32) (events : List Event) (faults : List Fault) :
    Stacks limit (Clients.start.stacksOf limit (fun _ => []) events)
      { (Clients.start.run limit events).store with faults } :=
  ((start limit).run events).of_rows rfl

end Stacks

/-! ## Steps on stacks -/

private theorem Reply.mem_count {reply : Reply} {asked : HandleRequest} {stack : List Bytes}
    {step : Bytes} (member : step ∈ reply.count asked stack) :
    step ∈ stack ∨ asked = .push step := by
  cases reply with
  | done =>
      cases asked with
      | push pushed =>
          rcases List.mem_cons.mp member with rfl | member
          · exact .inr rfl
          · exact .inl member
      | pop => exact .inl (List.mem_of_mem_tail member)
      | delete => cases member
      | _ => exact .inl member
  | _ => exact .inl member

private theorem Clients.mem_count {limit : UInt32} {clients : Clients Memory}
    {piles : Id → List Bytes} {event : Event} {id : Id} {step : Bytes}
    (member : step ∈ clients.count limit piles event id) :
    step ∈ piles id ∨ ∃ name, event = .request (.work name (.push step)) := by
  cases event with
  | fault fault => exact .inl member
  | request request =>
      cases request with
      | work name asked =>
          simp only [count] at member
          cases held : clients.handles.get? name with
          | none =>
              rw [held] at member
              exact .inl member
          | some handle =>
              simp only [held, setStack] at member
              split at member
              · next same =>
                  subst same
                  rcases Reply.mem_count member with old | rfl
                  · exact .inl old
                  · exact .inr ⟨name, rfl⟩
              · exact .inl member
      | _ => exact .inl member

theorem Clients.mem_stacksOf {limit : UInt32} {clients : Clients Memory}
    {piles : Id → List Bytes} {events : List Event} {id : Id} {step : Bytes}
    (member : step ∈ clients.stacksOf limit piles events id) :
    step ∈ piles id ∨ ∃ name, .request (.work name (.push step)) ∈ events := by
  induction events generalizing clients piles with
  | nil => exact .inl member
  | cons event rest ih =>
      rcases ih member with counted | ⟨name, later⟩
      · rcases Clients.mem_count counted with old | ⟨name, rfl⟩
        · exact .inl old
        · exact .inr ⟨name, List.mem_cons_self⟩
      · exact .inr ⟨name, List.mem_cons_of_mem _ later⟩

private theorem exists_map_eq {α : Type} {encode : α → Bytes} {stack : List Bytes}
    (encoded : ∀ bytes ∈ stack, ∃ step, encode step = bytes) :
    ∃ steps : List α, steps.map encode = stack := by
  induction stack with
  | nil => exact ⟨[], rfl⟩
  | cons top below ih =>
      obtain ⟨step, same⟩ := encoded top List.mem_cons_self
      obtain ⟨steps, rest⟩ := ih fun bytes member => encoded bytes (.tail _ member)
      exact ⟨step :: steps, by rw [List.map_cons, same, rest]⟩

def Handle.topStep {σ α : Type} [RowStore σ] (handle : Handle)
    (decode : Bytes → Except Error α) : StoreStep σ (Option α) := do
  match ← handle.top with
  | none => return none
  | some bytes => return some (← StoreStep.ofExcept (decode bytes))

namespace Stacks

variable {limit : UInt32} {piles : Id → List Bytes} {store : Memory} {handle : Handle}
  {record : Record}

theorem top_eq (holds : Stacks limit piles store)
    (found : store.read handle.transaction.text = some record) :
    handle.top store = .ok (piles handle.transaction).head? store := by
  obtain ⟨snapshot, read, steps⟩ := holds.read_eq found
  unfold Handle.top
  rw [bind_of_ok read, top?_eq steps]
  rfl

theorem topStep_eq {α : Type} {encode : α → Bytes} {decode : Bytes → Except Error α}
    (reads : ∀ step, decode (encode step) = .ok step) (holds : Stacks limit piles store)
    (found : store.read handle.transaction.text = some record) {steps : List α}
    (same : steps.map encode = piles handle.transaction) :
    handle.topStep decode store = .ok steps.head? store := by
  unfold Handle.topStep
  rw [bind_of_ok (holds.top_eq found), ← same]
  cases steps with
  | nil => rfl
  | cons step below =>
      simp only [List.map_cons, List.head?_cons, reads]
      rfl

theorem push_overflow_iff (holds : Stacks limit piles store)
    (found : store.read handle.transaction.text = some record) (step : Bytes) :
    (∃ text bound later, handle.push limit step store =
      .error (.stackOverflow text bound) later) ↔
      limit.toNat ≤ (piles handle.transaction).length := by
  rw [holds.push_eq step found]
  by_cases full : limit.toNat ≤ (piles handle.transaction).length
  · simp [full]
  · rw [if_neg full]
    unfold Handle.acted
    dsimp only
    split <;> simp [full]

end Stacks

/-- In every run the steps of a transaction are those that were pushed and not popped, top
first, in positions from their number down to one and never more than the limit. -/
theorem Clients.steps_of_run {α : Type} (encode : α → Bytes) (decode : Bytes → Except Error α)
    (reads : ∀ step, decode (encode step) = .ok step) (limit : UInt32) (events : List Event)
    (encoded : ∀ name bytes, .request (.work name (.push bytes)) ∈ events →
      ∃ step, encode step = bytes) (id : Id) :
    let store := (start.run limit events).store
    ∃ steps : List α, steps.map encode = start.stacksOf limit (fun _ => []) events id ∧
      steps.length ≤ limit.toNat ∧
      (store.read id.text = none → steps = []) ∧
      ∀ record, store.read id.text = some record →
        (∃ snapshot, Snapshot.ofRecord record = .ok snapshot ∧
          snapshot.steps.map (·.1.toNat) = (List.range' 1 steps.length).reverse ∧
          snapshot.steps.map Prod.snd = steps.map encode) ∧
        ∀ handle : Handle, handle.transaction = id →
          handle.topStep decode store = .ok steps.head? store ∧
          (∀ step, (∃ text bound later, handle.push limit step store =
            .error (.stackOverflow text bound) later) ↔ limit.toNat ≤ steps.length) ∧
          (limit.toNat ≤ steps.length → ∀ step, handle.push limit step store =
            .error (.stackOverflow id.text limit) store) ∧
          (steps = [] → handle.pop store = .error (.refused (.emptyStack id)) store) := by
  intro store
  have holds : Stacks limit _ store := (Stacks.start limit).run events
  have pushed : ∀ bytes ∈ start.stacksOf limit (fun _ => []) events id,
      ∃ step, encode step = bytes := by
    intro bytes member
    rcases mem_stacksOf member with old | ⟨name, asked⟩
    · cases old
    · exact encoded name bytes asked
  obtain ⟨steps, same⟩ := exists_map_eq pushed
  have length : steps.length = (start.stacksOf limit (fun _ => []) events id).length := by
    rw [← same, List.length_map]
  refine ⟨steps, same, length ▸ holds.within id, fun absent => ?_, fun record found => ⟨?_, ?_⟩⟩
  · exact List.map_eq_nil_iff.mp (same.trans (holds.eq_nil_of_absent absent))
  · obtain ⟨snapshot, read, shape⟩ := (holds.stacked found).ofRecord (holds.fits id)
    refine ⟨snapshot, read, ?_, ?_⟩
    · rw [shape, positions_stackSteps (holds.fits id), length]
    · rw [shape, steps_stackSteps, same]
  · rintro handle rfl
    refine ⟨holds.topStep_eq reads found same, fun step => ?_, fun full step => ?_, ?_⟩
    · rw [length]
      exact holds.push_overflow_iff found step
    · rw [holds.push_eq step found, if_pos (length ▸ full)]
    · rintro rfl
      have popped := holds.pop_eq found
      rw [← same] at popped
      exact popped

def pushedOnce : List Event :=
  reserved "worker" ++
    [.request (.work "worker" (.push (Codec.encode Tablet.Availability.hosted)))]

theorem Clients.steps_of_run_pushedOnce :
    (⟨⟨.user, uuidOf 1⟩, ⟨⟨"p", "n", 7⟩, uuidOf 2⟩⟩ : Handle).topStep Codec.decode
        (start.run 100 pushedOnce).store =
      .ok (some Tablet.Availability.hosted) (start.run 100 pushedOnce).store := by
  have reads : ∀ availability : Tablet.Availability,
      Codec.decode (Codec.encode availability) = .ok availability := by
    intro availability
    cases availability <;> rfl
  have encoded : ∀ name bytes, .request (.work name (.push bytes)) ∈ pushedOnce →
      ∃ availability : Tablet.Availability, Codec.encode availability = bytes := by
    intro name bytes asked
    simp only [pushedOnce, reserved, List.mem_append, List.mem_cons, List.not_mem_nil,
      Event.request.injEq, Request.work.injEq, HandleRequest.push.injEq, reduceCtorEq,
      or_false, false_or] at asked
    exact ⟨.hosted, asked.2.symm⟩
  have stack : start.stacksOf 100 (fun _ => []) pushedOnce ⟨.user, uuidOf 1⟩ =
      [Codec.encode Tablet.Availability.hosted] := by
    decide +kernel
  have stored : ((start.run 100 pushedOnce).store.read
      (Id.text ⟨.user, uuidOf 1⟩)).isSome = true := by
    decide +kernel
  obtain ⟨record, found⟩ := Option.isSome_iff_exists.mp stored
  obtain ⟨steps, same, _, _, work⟩ :=
    steps_of_run Codec.encode Codec.decode reads 100 pushedOnce encoded ⟨.user, uuidOf 1⟩
  have top := ((work record found).2 ⟨_, ⟨⟨"p", "n", 7⟩, uuidOf 2⟩⟩ rfl).1
  have pushed : steps = [.hosted] := by
    rw [stack] at same
    obtain ⟨step, rest, rfl, first, none⟩ := List.map_eq_cons_iff.mp same
    have equal : (.ok step : Except Error Tablet.Availability) = .ok .hosted := by
      rw [← reads step, first, reads]
    rw [List.map_eq_nil_iff.mp none, Except.ok.inj equal]
  rw [pushed] at top
  exact top

end GuardedRows.Tx
