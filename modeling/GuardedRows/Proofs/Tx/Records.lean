import GuardedRows.Proofs.Store.Scan
import GuardedRows.Proofs.Tx.Creation
import GuardedRows.Proofs.Tx.Reading
import GuardedRows.Proofs.Tx.StackRun

/-!
# The records of a run

Whatever the workers do and whatever is hidden from them, every row is the record of a
transaction that was created and every cell of it reads. So neither a look-up nor a listing
ever fails, and what is listed is what there is.
-/

set_option autoImplicit false

namespace GuardedRows.Tx

open StoreStep

/-- A well-formed record of a transaction that was created at a time. -/
structure Id.Records (id : Id) (now : UInt64) (record : Record) : Prop where
  row : record.row = id.text
  status : ∃ status : Status, record.get? statusColumn = some (Bytes.ofText status.text)
  createTime : record.get? createTimeColumn = some (Bytes.ofText (Text.decimal now.toNat))
  reservation : ∀ bytes, record.get? reservationColumn = some bytes →
    ∃ text reservation, bytes = Bytes.ofText text ∧ Reservation.parse text = .ok reservation
  steps : ∀ column, column.family = stepFamily → record.contains column = true →
    ∃ position, column = stepColumn position

/-! ## Listing -/

/-- Rows that read one by one are read all together, one entry for each. -/
theorem readAll_of_reads (bindings : List (String × Record))
    (reads : ∀ row record, (row, record) ∈ bindings →
      ∃ snapshot, Snapshot.ofRecord record = .ok snapshot ∧ snapshot.id.text = row) :
    ∃ snapshots, readAll ((bindings.map Prod.snd).map .ok) = .ok snapshots ∧
      snapshots.map (·.id.text) = bindings.map Prod.fst ∧
      ∀ snapshot ∈ snapshots, ∃ record, (snapshot.id.text, record) ∈ bindings ∧
        Snapshot.ofRecord record = .ok snapshot := by
  induction bindings with
  | nil => exact ⟨[], rfl, rfl, fun _ member => nomatch member⟩
  | cons binding rest ih =>
      obtain ⟨row, record⟩ := binding
      obtain ⟨snapshot, read, named⟩ := reads row record List.mem_cons_self
      obtain ⟨snapshots, readRest, rows, listed⟩ := ih fun row record member =>
        reads row record (List.mem_cons_of_mem _ member)
      refine ⟨snapshot :: snapshots, ?_, ?_, ?_⟩
      · simp only [List.map_cons, readAll, read, readRest]
        rfl
      · rw [List.map_cons, List.map_cons, named, rows]
      · intro entry member
        rcases List.mem_cons.mp member with rfl | member
        · rw [named]
          exact ⟨record, List.mem_cons_self, read⟩
        · obtain ⟨record, among, read⟩ := listed entry member
          exact ⟨record, List.mem_cons_of_mem _ among, read⟩

theorem list_of_reads {store : Memory}
    (reads : ∀ row record, store.read row = some record →
      ∃ snapshot, Snapshot.ofRecord record = .ok snapshot ∧ snapshot.id.text = row) :
    ∃ snapshots, list store = .ok snapshots store ∧
      snapshots.map (·.id.text) = store.rows.keys ∧
      ∀ snapshot ∈ snapshots, find snapshot.id store = .ok (some snapshot) store := by
  obtain ⟨snapshots, read, rows, listed⟩ := readAll_of_reads store.rows.bindings
    fun row record member => reads row record (SortedMap.mem_toList_iff.mp member)
  refine ⟨snapshots, ?_, rows, ?_⟩
  · unfold list
    rw [bind_of_ok store.scan_all_step, SortedMap.values, read]
    rfl
  · intro snapshot member
    obtain ⟨record, among, read⟩ := listed snapshot member
    exact find_of_ofRecord (SortedMap.mem_toList_iff.mp among) read

/-! ## Runs -/

theorem Stacks.exists_stepColumn {limit : UInt32} {piles : Id → List Bytes} {store : Memory}
    (holds : Stacks limit piles store) {id : Id} {column : Column} {step : Bytes}
    (family : column.family = stepFamily) (cell : store.cell? id.text column = some step) :
    ∃ position, column = stepColumn position := by
  rw [holds.steps id column family] at cell
  obtain ⟨entry, _, same⟩ := List.mem_map.mp ((stackCell_eq_some_iff (holds.fits id)).mp cell)
  exact ⟨entry.1, (congrArg Prod.fst same).symm⟩

theorem Stacks.reservation_parses {limit : UInt32} {piles : Id → List Bytes} {store : Memory}
    (holds : Stacks limit piles store) {id : Id} {bytes : Bytes}
    (cell : store.cell? id.text reservationColumn = some bytes) :
    ∃ text reservation, bytes = Bytes.ofText text ∧ Reservation.parse text = .ok reservation := by
  obtain ⟨reservation, rfl⟩ := holds.reservation id bytes cell
  obtain ⟨read, parsed⟩ := reservation.exists_parse_text
  exact ⟨reservation.text, read, rfl, parsed⟩

namespace Clients

variable {limit : UInt32} {events : List Event}

/-- Every row is the well-formed record of a transaction that was created, and reads. -/
theorem records_of_read {row : String} {record : Record}
    (found : (start.run limit events).store.read row = some record) :
    ∃ id now, Creates events id now ∧ row = id.text ∧ id.Records now record ∧
      ∃ snapshot, Snapshot.ofRecord record = .ok snapshot ∧ snapshot.id = id := by
  have holds := (Stacks.start limit).run events
  have stored : ((start.run limit events).store.read row).isSome = true := by rw [found]; rfl
  obtain ⟨id, now, creates, rfl, time⟩ := (Dated.reached limit events).created row stored
  obtain ⟨status, named⟩ := (Registered.empty.run events).status id.text stored
  have cell : ∀ column,
      (start.run limit events).store.cell? id.text column = record.get? column := by
    intro column
    rw [Memory.cell?, found, Option.bind_some]
  have own : record.row = id.text := holds.filed.row id.text record found
  refine ⟨id, now, creates, rfl, ⟨own, ⟨status, ?_⟩, ?_, ?_, ?_⟩, ?_⟩
  · rw [← cell, named]
  · rw [← cell, time]
  · intro bytes value
    exact holds.reservation_parses ((cell reservationColumn).trans value)
  · intro column family contained
    obtain ⟨step, value⟩ := Option.isSome_iff_exists.mp contained
    exact holds.exists_stepColumn family ((cell column).trans value)
  · exact holds.exists_ofRecord found

/-- Over any run from an empty store, with any faults in wait: every row is the well-formed
record of a transaction that was created, and reads; no look-up and no listing fails, and a
listing has one entry for each row; and if no UUID is drawn twice, a transaction that had a
record and lost it has none ever after. -/
theorem records_of_run (limit : UInt32) (events : List Event) :
    let store := (start.run limit events).store
    (∀ row record, store.read row = some record →
      ∃ id now, Creates events id now ∧ row = id.text ∧ id.Records now record ∧
        ∃ snapshot, Snapshot.ofRecord record = .ok snapshot) ∧
    (∀ id : Id, ∃ snapshot, find id store = .ok snapshot store ∧
      snapshot.isSome = (store.read id.text).isSome) ∧
    (∃ snapshots, list store = .ok snapshots store ∧
      snapshots.map (·.id.text) = store.rows.keys ∧
      ∀ snapshot ∈ snapshots, find snapshot.id store = .ok (some snapshot) store) ∧
    ((drawn events).Nodup → ∀ before between after, events = before ++ between ++ after →
      ∀ id : Id, ((start.run limit before).store.read id.text).isSome = true →
        (start.run limit (before ++ between)).store.read id.text = none →
        store.read id.text = none) := by
  intro store
  refine ⟨?_, ?_, list_of_reads ?_, ?_⟩
  · intro row record found
    obtain ⟨id, now, creates, same, well, snapshot, read, _⟩ := records_of_read found
    exact ⟨id, now, creates, same, well, snapshot, read⟩
  · intro id
    cases found : store.read id.text with
    | none => exact ⟨none, find_of_absent found, rfl⟩
    | some record =>
        obtain ⟨_, _, _, _, _, snapshot, read, _⟩ := records_of_read found
        exact ⟨some snapshot, find_of_ofRecord found read, rfl⟩
  · intro row record found
    obtain ⟨id, _, _, same, _, snapshot, read, named⟩ := records_of_read found
    exact ⟨snapshot, read, by rw [named, same]⟩
  · rintro distinct before between after rfl id stored gone
    exact absent_of_removed distinct stored gone

/-- A worker deletes its transaction, and another transaction is created. -/
def recreated : List Event :=
  reserved "worker" ++ [.request (.work "worker" .delete)] ++
    [.request (.create .user (uuidOf 3) 5)]

theorem records_of_run_recreated :
    (start.run 10 recreated).store.read holder.transaction.text = none ∧
      ∃ snapshots, list (start.run 10 recreated).store =
          .ok snapshots (start.run 10 recreated).store ∧
        snapshots.map (·.id.text) = [Id.text ⟨.user, uuidOf 3⟩] := by
  obtain ⟨_, _, ⟨snapshots, listed, rows, _⟩, gone⟩ := records_of_run 10 recreated
  refine ⟨gone (by decide +kernel) (reserved "worker") _ _ rfl _ (by decide +kernel)
    (by decide +kernel), snapshots, listed, rows.trans (by decide +kernel)⟩

end Clients

end GuardedRows.Tx
