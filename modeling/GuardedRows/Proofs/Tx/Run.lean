import GuardedRows.Proofs.Tx.Requests

/-!
# Runs of clients

A run starts from an empty store without handles. Its events are requests, each answered in
full before the next, and faults that are laid in wait for coming mutations.
-/

set_option autoImplicit false

namespace GuardedRows.Tx

open StoreStep

/-- One thing that happens in a run. -/
inductive Event where
  | request (request : Request)
  | fault (fault : Fault)

def Request.drawn? : Request → Option Uuid
  | .create _ drawn _ => some drawn
  | .tryReserve _ _ drawn _ => some drawn
  | .work _ _ => none
  | .releaseDead _ => none

def Event.drawn? : Event → Option Uuid
  | .request asked => asked.drawn?
  | .fault _ => none

def drawn (events : List Event) : List Uuid := events.filterMap Event.drawn?

theorem drawn_cons (event : Event) (rest : List Event) :
    drawn (event :: rest) = event.drawn?.toList ++ drawn rest := by
  cases made : event.drawn? <;> simp [drawn, made]

theorem drawn_append (first second : List Event) :
    drawn (first ++ second) = drawn first ++ drawn second :=
  List.filterMap_append

namespace Clients

def step (limit : UInt32) (clients : Clients Memory) : Event → Clients Memory
  | .request request => (clients.perform limit request).2
  | .fault fault => { clients with store := clients.store.addFault fault }

def run (limit : UInt32) (clients : Clients Memory) (events : List Event) : Clients Memory :=
  events.foldl (step limit) clients

def start : Clients Memory := { store := .empty }

theorem run_append (limit : UInt32) (clients : Clients Memory) (first second : List Event) :
    clients.run limit (first ++ second) = (clients.run limit first).run limit second :=
  List.foldl_append

variable {limit : UInt32} {clients : Clients Memory}

private theorem handle_of_tryReserve {id : Id} {lock : LockId} {drawn : Uuid} {handle : Handle}
    {store later : Memory}
    (reserved : tryReserve id lock drawn store = .ok (some handle) later) :
    handle = ⟨id, ⟨lock, drawn⟩⟩ := by
  unfold tryReserve at reserved
  cases settled : (Edit.settle id [.requireStatus Status.all, .reserve ⟨lock, drawn⟩]
      (fun current => current.any (·.reservation = some ⟨lock, drawn⟩)) :
        StoreStep Memory (Settlement Snapshot)) store with
  | error error between => simp [bind_of_error settled] at reserved
  | ok settlement between =>
      rw [bind_of_ok settled] at reserved
      cases outcome : settlement.outcome <;> simp [outcome] at reserved
      exact reserved.1.symm

private theorem handles_answer (clients : Clients Memory) (step : StoreStep Memory Reply) :
    (clients.answer step).2.handles = clients.handles := by
  unfold answer
  split <;> rfl

private theorem held_of_work {other name : String} {request : HandleRequest} {handle : Handle}
    (held : (clients.perform limit (.work other request)).2.handles.get? name = some handle) :
    clients.handles.get? name = some handle := by
  simp only [perform] at held
  cases found : clients.handles.get? other with
  | none =>
      rw [found] at held
      exact held
  | some worker =>
      simp only [found] at held
      split at held
      · by_cases same : name = other
        · subst same
          simp [handles_answer] at held
        · simpa only [handles_answer, SortedMap.get?_erase_of_ne same] using held
      · simpa only [handles_answer] using held

private theorem held_of_tryReserve {id : Id} {lock : LockId} {drawn : Uuid}
    {other name : String} {handle : Handle}
    (held : (clients.perform limit (.tryReserve id lock drawn other)).2.handles.get? name =
      some handle) :
    clients.handles.get? name = some handle ∨
      name = other ∧ handle = ⟨id, ⟨lock, drawn⟩⟩ := by
  simp only [perform, answer] at held
  cases reserved : (tryReserve id lock drawn : StoreStep Memory _) clients.store with
  | error error later =>
      rw [bind_of_error reserved] at held
      exact .inl held
  | ok made later =>
      rw [bind_of_ok reserved] at held
      cases made with
      | none => exact .inl held
      | some made =>
          by_cases same : name = other
          · subst same
            simp only [pure_apply, SortedMap.get?_insert_self, Option.some.injEq] at held
            subst held
            exact .inr ⟨rfl, handle_of_tryReserve reserved⟩
          · simp only [pure_apply, SortedMap.get?_insert_of_ne same] at held
            exact .inl held

/-- A request adds no handle but that of the reservation it makes. -/
theorem held_of_perform {request : Request} {name : String} {handle : Handle}
    (held : (clients.perform limit request).2.handles.get? name = some handle) :
    clients.handles.get? name = some handle ∨
      ∃ id lock drawn, request = .tryReserve id lock drawn name ∧
        handle = ⟨id, ⟨lock, drawn⟩⟩ := by
  cases request with
  | create home drawn now =>
      simp only [perform, handles_answer] at held
      exact .inl held
  | releaseDead isLive =>
      simp only [perform, handles_answer] at held
      exact .inl held
  | work other request => exact .inl (held_of_work held)
  | tryReserve id lock drawn other =>
      rcases held_of_tryReserve held with held | ⟨rfl, made⟩
      · exact .inl held
      · exact .inr ⟨id, lock, drawn, rfl, made⟩

end Clients

/-! ## Samples -/

def uuidOf (last : UInt8) : Uuid := ⟨List.replicate 15 0 ++ [last], rfl⟩

def reserved (worker : String) : List Event :=
  [.request (.create .user (uuidOf 1) 0),
    .request (.tryReserve ⟨.user, uuidOf 1⟩ ⟨"p", "n", 7⟩ (uuidOf 2) worker)]

/-- The handle of the worker. -/
def holder : Handle := ⟨⟨.user, uuidOf 1⟩, ⟨⟨"p", "n", 7⟩, uuidOf 2⟩⟩

end GuardedRows.Tx
