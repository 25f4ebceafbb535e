import GuardedRows.Proofs.Tx.Edits
import GuardedRows.Proofs.Tx.Run

/-!
# The register of transactions

Only the creation of a transaction lands on a row that is not there, and only the removal of
one takes a row away. So every row is the record of a transaction that was created with a UUID
of its own, and names one of the statuses.
-/

set_option autoImplicit false

namespace GuardedRows

theorem Condition.isSome_of_holds_oneOf {column : Column} {values : List Bytes}
    {current : Option Record} (holds : (oneOf column values).holds current = true) :
    current.isSome = true := by
  cases current with
  | none => cases holds
  | some record => rfl

namespace Tx

/-- What a request makes of a cell of facts, other than the reservation, of the row it lands
on. -/
def Request.onFact (column : Column) : Request → Option Bytes → Option Bytes
  | .create _ _ now, cell =>
      if statusColumn = column then some (Bytes.ofText Status.new.text)
      else if createTimeColumn = column then some (Bytes.ofText (Text.decimal now.toNat))
      else cell
  | .work _ (.setStatus status), cell =>
      if statusColumn = column then some (Bytes.ofText status.text) else cell
  | .work _ .delete, _ => none
  | _, cell => cell

namespace Request.Sends

variable {handles : SortedMap String Handle} {request : Request} {id : Id} {edits : List Edit}
  {store : Memory}

theorem onFact_eq (sends : request.Sends handles id edits) {column : Column}
    (fact : column.family = factFamily) (unreserved : reservationColumn ≠ column)
    (cell : Option Bytes) :
    (Edit.mutation id edits).writes.foldl (Write.onCell column) cell =
      request.onFact column cell := by
  have steps : ∀ position, stepColumn position ≠ column := stepColumn_ne fact
  have details : ∀ info : Info, info.column ≠ column := Info.column_ne fact
  cases sends with
  | create home drawn now =>
      by_cases status : statusColumn = column
      · subst status
        rfl
      · simp [Edit.mutation, Edit.writes, Write.onCell, onFact, status]
  | tryReserve id lock drawn name =>
      simp [Edit.mutation, Edit.writes, Write.onCell, onFact, unreserved]
  | releaseDead isLive id reservation =>
      simp [Edit.mutation, Edit.writes, Write.onCell, onFact, unreserved]
  | work held sends =>
      cases sends with
      | push position step =>
          simp [Edit.mutation, Handle.guarded, Edit.writes, Write.onCell, steps, onFact]
      | pop position =>
          simp [Edit.mutation, Handle.guarded, Edit.writes, Write.onCell, steps, onFact]
      | setInfo info value =>
          simp [Edit.mutation, Handle.guarded, Edit.writes, Write.onCell, details, onFact]
      | setStatus status => rfl
      | delete => rfl
      | unreserve =>
          simp [Edit.mutation, Edit.writes, Write.onCell, unreserved, onFact]

theorem fact_submit (sends : request.Sends handles id edits) {column : Column}
    (fact : column.family = factFamily) (unreserved : reservationColumn ≠ column)
    (row : String) :
    (store.submit (Edit.mutation id edits)).2.cell? row column =
      if row = id.text ∧ store.lands (Edit.mutation id edits) = true then
        request.onFact column (store.cell? row column)
      else store.cell? row column := by
  rw [Edit.cell?_submit, sends.onFact_eq fact unreserved]

theorem status_submit (sends : request.Sends handles id edits) (row : String) :
    (store.submit (Edit.mutation id edits)).2.cell? row statusColumn =
      if row = id.text ∧ store.lands (Edit.mutation id edits) = true then
        request.onFact statusColumn (store.cell? row statusColumn)
      else store.cell? row statusColumn :=
  sends.fact_submit rfl (by decide) row

/-- Every request but a creation asks for a cell of the row. -/
theorem created_or_isSome (sends : request.Sends handles id edits)
    (landed : store.lands (Edit.mutation id edits) = true) :
    (∃ home drawn now, request = .create home drawn now ∧ id = ⟨home, drawn⟩) ∨
      (store.read id.text).isSome = true := by
  have asks : ∀ {column values},
      .oneOf column values ∈ (Edit.mutation id edits).conditions →
      (store.read id.text).isSome = true :=
    fun asked => Condition.isSome_of_holds_oneOf (Memory.holds_of_lands landed asked)
  cases sends with
  | create home drawn now => exact .inl ⟨home, drawn, now, rfl, rfl⟩
  | tryReserve id lock drawn name => exact .inr (asks List.mem_cons_self)
  | work held sends => exact .inr (asks sends.guarded)
  | releaseDead isLive id reservation => exact .inr (asks List.mem_cons_self)

theorem created_of_new {row : String} (sends : request.Sends handles id edits)
    (absent : store.read row = none)
    (stored : ((store.submit (Edit.mutation id edits)).2.read row).isSome = true) :
    ∃ home drawn now, request = .create home drawn now ∧ row = Id.text ⟨home, drawn⟩ := by
  rw [Edit.read_submit] at stored
  split at stored
  · next landed =>
      rcases sends.created_or_isSome landed.2 with ⟨home, drawn, now, rfl, rfl⟩ | found
      · exact ⟨home, drawn, now, rfl, landed.1⟩
      · rw [← landed.1, absent] at found
        cases found
  · rw [absent] at stored
    cases stored

theorem read_of_deleted {name : String}
    (sends : Request.Sends handles (.work name .delete) id edits)
    (landed : store.lands (Edit.mutation id edits) = true) :
    (store.submit (Edit.mutation id edits)).2.read id.text = none := by
  cases sends with
  | work held sends =>
      cases sends
      rw [Edit.read_submit, if_pos ⟨rfl, landed⟩]
      rfl

end Request.Sends

theorem Request.status_onFact (request : Request) (status : Status) :
    (∃ name, request = .work name .delete) ∨
      ∃ later : Status, request.onFact statusColumn (some (Bytes.ofText status.text)) =
        some (Bytes.ofText later.text) := by
  cases request with
  | create home drawn now => exact .inr ⟨.new, rfl⟩
  | work name request =>
      cases request with
      | setStatus target => exact .inr ⟨target, rfl⟩
      | delete => exact .inl ⟨name, rfl⟩
      | _ => exact .inr ⟨status, rfl⟩
  | _ => exact .inr ⟨status, rfl⟩

/-- Every row is the record of a transaction with a drawn UUID, and names a status. -/
structure Registered (uuids : List Uuid) (store : Memory) : Prop where
  drawn : ∀ row, (store.read row).isSome = true → ∃ id : Id, row = id.text ∧ id.uuid ∈ uuids
  status : ∀ row, (store.read row).isSome = true →
    ∃ status : Status, store.cell? row statusColumn = some (Bytes.ofText status.text)

namespace Registered

variable {limit : UInt32} {clients : Clients Memory} {store later : Memory} {uuids : List Uuid}
  {handles : SortedMap String Handle} {request : Request}

theorem empty : Registered [] .empty where
  drawn _ stored := by cases stored
  status _ stored := by cases stored

theorem mono {more : List Uuid} (registered : Registered uuids store) (included : uuids ⊆ more) :
    Registered more store where
  drawn row stored := by
    obtain ⟨id, same, member⟩ := registered.drawn row stored
    exact ⟨id, same, included member⟩
  status := registered.status

theorem of_rows (registered : Registered uuids store) (same : later.rows = store.rows) :
    Registered uuids later := by
  obtain ⟨rows, faults, accepted, rejected⟩ := later
  cases same
  exact ⟨registered.drawn, registered.status⟩

theorem absent (registered : Registered uuids store) {drawn : Uuid} (fresh : drawn ∉ uuids)
    (home : Instance) : store.read (Id.text ⟨home, drawn⟩) = none := by
  cases found : store.read (Id.text ⟨home, drawn⟩) with
  | none => rfl
  | some record =>
      obtain ⟨id, same, member⟩ := registered.drawn _ (by rw [found]; rfl)
      have known := congrArg Id.parse same
      simp only [Id.parse_text, Except.ok.injEq] at known
      rw [← known] at member
      exact absurd member fresh

theorem submit {id : Id} {edits : List Edit} (registered : Registered uuids store)
    (sends : request.Sends handles id edits) (drawn : ∀ uuid ∈ request.drawn?, uuid ∈ uuids) :
    Registered uuids (store.submit (Edit.mutation id edits)).2 := by
  refine ⟨fun row stored => ?_, fun row stored => ?_⟩
  · cases found : store.read row with
    | some record => exact registered.drawn row (by rw [found]; rfl)
    | none =>
        obtain ⟨home, uuid, now, rfl, same⟩ := sends.created_of_new found stored
        exact ⟨⟨home, uuid⟩, same, drawn uuid rfl⟩
  · rw [sends.status_submit]
    split
    · next landed =>
        obtain ⟨rfl, landed⟩ := landed
        rcases sends.created_or_isSome landed with ⟨home, uuid, now, rfl, rfl⟩ | found
        · exact ⟨.new, rfl⟩
        · obtain ⟨status, cell⟩ := registered.status id.text found
          rw [cell]
          rcases request.status_onFact status with ⟨name, rfl⟩ | named
          · rw [sends.read_of_deleted landed] at stored
            cases stored
          · exact named
    · next missed =>
        rw [Edit.read_submit, if_neg missed] at stored
        exact registered.status row stored

theorem of_sent (registered : Registered uuids store)
    (sent : Memory.Sent (request.Submits handles) store later)
    (drawn : ∀ uuid ∈ request.drawn?, uuid ∈ uuids) : Registered uuids later := by
  induction sent with
  | nothing => exact registered
  | more _ submits ih =>
      obtain ⟨id, edits, sends, rfl⟩ := submits
      exact ih.submit sends drawn

theorem step (registered : Registered uuids clients.store) (event : Event) :
    Registered (uuids ++ event.drawn?.toList) (clients.step limit event).store := by
  cases event with
  | fault fault =>
      have still : Registered uuids (clients.step limit (.fault fault)).store :=
        registered.of_rows rfl
      exact still.mono (List.subset_append_left _ _)
  | request request =>
      have wider := registered.mono (List.subset_append_left uuids request.drawn?.toList)
      exact wider.of_sent (Clients.sent_perform limit clients request) fun uuid made =>
        List.mem_append_right _ (Option.mem_toList.mpr made)

theorem run (registered : Registered uuids clients.store) (events : List Event) :
    Registered (uuids ++ Tx.drawn events) (clients.run limit events).store := by
  induction events generalizing uuids clients with
  | nil => exact registered.mono (List.subset_append_left _ _)
  | cons event rest ih =>
      rw [drawn_cons, ← List.append_assoc]
      exact ih (registered.step event)

/-- Every store that a run can leave is registered, whatever faults are in wait. -/
theorem reached (limit : UInt32) (events : List Event) (faults : List Fault) :
    Registered (Tx.drawn events) { (Clients.start.run limit events).store with faults } :=
  (empty.run events : Registered ([] ++ Tx.drawn events) _).of_rows rfl

end Registered

/-! ## Rows that come and go -/

section Rows

variable {handles : SortedMap String Handle} {request : Request} {store later : Memory}
  {row : String}

/-- Only a removal can take away the status of a row. -/
theorem Request.status_of_sent (sent : Memory.Sent (request.Submits handles) store later)
    (keeps : ∀ name, request ≠ .work name .delete)
    (named : ∃ status : Status,
      store.cell? row statusColumn = some (Bytes.ofText status.text)) :
    ∃ status : Status, later.cell? row statusColumn = some (Bytes.ofText status.text) := by
  induction sent with
  | nothing => exact named
  | more _ submits ih =>
      obtain ⟨id, edits, sends, rfl⟩ := submits
      obtain ⟨status, cell⟩ := ih
      rw [sends.status_submit, cell]
      split
      · rcases request.status_onFact status with ⟨name, removal⟩ | renamed
        · exact absurd removal (keeps name)
        · exact renamed
      · exact ⟨status, rfl⟩

theorem Registered.removal_of_sent {uuids : List Uuid} (registered : Registered uuids store)
    (sent : Memory.Sent (request.Submits handles) store later)
    (stored : (store.read row).isSome = true) (gone : later.read row = none) :
    ∃ name, request = .work name .delete := by
  refine Classical.byContradiction fun keeps => ?_
  obtain ⟨status, cell⟩ := Request.status_of_sent sent
    (fun name same => keeps ⟨name, same⟩) (registered.status row stored)
  rw [Memory.cell?, gone] at cell
  cases cell

theorem Request.created_of_sent (sent : Memory.Sent (request.Submits handles) store later)
    (absent : store.read row = none) (stored : (later.read row).isSome = true) :
    ∃ home drawn now, request = .create home drawn now ∧ row = Id.text ⟨home, drawn⟩ := by
  induction sent with
  | nothing =>
      rw [absent] at stored
      cases stored
  | @more between mutation _ submits ih =>
      obtain ⟨id, edits, sends, rfl⟩ := submits
      cases found : between.read row with
      | none => exact sends.created_of_new found stored
      | some record => exact ih (by rw [found]; rfl)

end Rows

end Tx

end GuardedRows
