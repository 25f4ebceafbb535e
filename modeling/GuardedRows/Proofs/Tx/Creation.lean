import GuardedRows.Proofs.Tx.Register

/-!
# Creations

A row is there only since a creation of its transaction, and as long as it is there it tells
the time of one. A row that is gone stays away until its transaction is created again, which
takes the same UUID.
-/

set_option autoImplicit false

namespace GuardedRows.Tx

open StoreStep

/-- Among the events there is a creation of the transaction at a time. -/
def Creates (events : List Event) (id : Id) (now : UInt64) : Prop :=
  .request (.create id.home id.uuid now) ∈ events

theorem Creates.uuid_mem {events : List Event} {id : Id} {now : UInt64}
    (creates : Creates events id now) : id.uuid ∈ drawn events :=
  List.mem_filterMap.mpr ⟨_, creates, rfl⟩

/-! ## The creation time -/

theorem Request.createTime_onFact (request : Request) :
    (∃ home drawn now, request = .create home drawn now) ∨
      (∃ name, request = .work name .delete) ∨
      ∀ cell, request.onFact createTimeColumn cell = cell := by
  cases request with
  | create home drawn now => exact .inl ⟨home, drawn, now, rfl⟩
  | work name request =>
      cases request with
      | delete => exact .inr (.inl ⟨name, rfl⟩)
      | _ => exact .inr (.inr fun _ => rfl)
  | _ => exact .inr (.inr fun _ => rfl)

/-- Every row is that of a transaction that was made, and tells a time at which it was. -/
structure Dated (made : Id → UInt64 → Prop) (store : Memory) : Prop where
  created : ∀ row, (store.read row).isSome = true → ∃ id now, made id now ∧ row = id.text ∧
    store.cell? row createTimeColumn = some (Bytes.ofText (Text.decimal now.toNat))

namespace Dated

variable {limit : UInt32} {clients : Clients Memory} {store later : Memory}
  {made : Id → UInt64 → Prop} {handles : SortedMap String Handle} {request : Request}

theorem empty : Dated made .empty where
  created _ stored := by cases stored

theorem mono (dated : Dated made store) {more : Id → UInt64 → Prop}
    (included : ∀ id now, made id now → more id now) : Dated more store where
  created row stored := by
    obtain ⟨id, now, known, told⟩ := dated.created row stored
    exact ⟨id, now, included id now known, told⟩

theorem submit {id : Id} {edits : List Edit} (dated : Dated made store)
    (sends : request.Sends handles id edits)
    (makes : ∀ home drawn now, request = .create home drawn now → made ⟨home, drawn⟩ now) :
    Dated made (store.submit (Edit.mutation id edits)).2 := by
  refine ⟨fun row stored => ?_⟩
  rw [sends.fact_submit rfl (by decide)]
  split
  · next landed =>
      obtain ⟨rfl, landed⟩ := landed
      rcases sends.created_or_isSome landed with ⟨home, drawn, now, rfl, rfl⟩ | found
      · exact ⟨⟨home, drawn⟩, now, makes home drawn now rfl, rfl, rfl⟩
      · rcases request.createTime_onFact with ⟨home, drawn, now, rfl⟩ | ⟨name, rfl⟩ | keeps
        · cases sends
          exact ⟨⟨home, drawn⟩, now, makes home drawn now rfl, rfl, rfl⟩
        · rw [sends.read_of_deleted landed] at stored
          cases stored
        · rw [keeps]
          exact dated.created id.text found
  · next missed =>
      rw [Edit.read_submit, if_neg missed] at stored
      exact dated.created row stored

theorem of_sent (dated : Dated made store)
    (sent : Memory.Sent (request.Submits handles) store later)
    (makes : ∀ home drawn now, request = .create home drawn now → made ⟨home, drawn⟩ now) :
    Dated made later := by
  induction sent with
  | nothing => exact dated
  | more _ submits ih =>
      obtain ⟨id, edits, sends, rfl⟩ := submits
      exact ih.submit sends makes

theorem step {events : List Event} (dated : Dated (Creates events) clients.store)
    (event : Event) : Dated (Creates (events ++ [event])) (clients.step limit event).store := by
  have wider : Dated (Creates (events ++ [event])) clients.store :=
    dated.mono fun _ _ creates => List.mem_append_left _ creates
  cases event with
  | fault fault => exact ⟨wider.created⟩
  | request request =>
      refine wider.of_sent (Clients.sent_perform limit clients request) ?_
      rintro home drawn now rfl
      exact List.mem_append_right _ List.mem_cons_self

theorem run {before : List Event} (dated : Dated (Creates before) clients.store)
    (events : List Event) :
    Dated (Creates (before ++ events)) (clients.run limit events).store := by
  induction events generalizing before clients with
  | nil => simpa [Clients.run] using dated
  | cons event rest ih =>
      rw [List.append_cons]
      exact ih (dated.step event)

theorem reached (limit : UInt32) (events : List Event) :
    Dated (Creates events) (Clients.start.run limit events).store :=
  (empty.run events : Dated (Creates ([] ++ events)) _)

end Dated

/-! ## Rows that are gone -/

namespace Clients

variable {limit : UInt32} {clients : Clients Memory} {id : Id} {events : List Event}

theorem absent_run (absent : clients.store.read id.text = none)
    (never : ∀ now, ¬Creates events id now) :
    (clients.run limit events).store.read id.text = none := by
  induction events generalizing clients with
  | nil => exact absent
  | cons event rest ih =>
      refine ih ?_ fun now creates => never now (List.mem_cons_of_mem _ creates)
      cases event with
      | fault fault => exact absent
      | request request =>
          refine Option.not_isSome_iff_eq_none.mp fun stored => ?_
          obtain ⟨home, drawn, now, rfl, same⟩ :=
            Request.created_of_sent (sent_perform limit clients request) absent stored
          have read := congrArg Id.parse same
          simp only [Id.parse_text, Except.ok.injEq] at read
          subst read
          exact never now List.mem_cons_self

/-- A transaction that had a record and has none has none ever after, if no UUID is drawn
twice. -/
theorem absent_of_removed {before between after : List Event}
    (distinct : (drawn (before ++ between ++ after)).Nodup)
    (stored : ((start.run limit before).store.read id.text).isSome = true)
    (gone : (start.run limit (before ++ between)).store.read id.text = none) :
    (start.run limit (before ++ between ++ after)).store.read id.text = none := by
  obtain ⟨other, now, creates, same, _⟩ := (Dated.reached limit before).created id.text stored
  have read := congrArg Id.parse same
  simp only [Id.parse_text, Except.ok.injEq] at read
  subst read
  rw [drawn_append, drawn_append] at distinct
  have known := List.mem_append_left (drawn between) creates.uuid_mem
  have apart := (List.nodup_append.mp distinct).2.2
  rw [run_append]
  refine absent_run gone fun again creates => ?_
  exact apart id.uuid known id.uuid creates.uuid_mem rfl

end Clients

end GuardedRows.Tx
