import GuardedRows.Proofs.Store.FaultErasure
import GuardedRows.Proofs.Tx.Records
import GuardedRows.Proofs.Tx.ReservationOutcomes

/-!
# Sweeps of dead reservations

A sweep goes by one listing. It sends one release for each reservation that the listing has and
whose lock is not live, and every release asks for the bytes that stand there, whatever the
stored text reads as. So if nothing is hidden, all of them are given back and nothing else
changes. A listing that fails leaves everything as it was.
-/

set_option autoImplicit false

namespace GuardedRows.Tx

open StoreStep

/-! ## What a sweep sends -/

/-- The handle to the reservation of a transaction, if its lock is not live. -/
def Snapshot.dead? (isLive : LockId → Bool) (snapshot : Snapshot) : Option Handle :=
  (snapshot.reservation.filter fun reservation => !isLive reservation.lock).map
    fun reservation => ⟨snapshot.id, reservation⟩

theorem Snapshot.dead?_eq_some_iff {isLive : LockId → Bool} {snapshot : Snapshot}
    {handle : Handle} :
    snapshot.dead? isLive = some handle ↔
      snapshot.id = handle.transaction ∧ snapshot.reservation = some handle.reservation ∧
        isLive handle.reservation.lock = false := by
  obtain ⟨transaction, reservation⟩ := handle
  simp only [dead?, Option.map_eq_some_iff, Option.filter_eq_some_iff, Handle.mk.injEq,
    Bool.not_eq_true']
  constructor
  · rintro ⟨held, ⟨reserved, dead⟩, rfl, rfl⟩
    exact ⟨rfl, reserved, dead⟩
  · rintro ⟨rfl, reserved, dead⟩
    exact ⟨reservation, ⟨reserved, dead⟩, rfl, rfl⟩

/-- The mutation that gives back the reservation of a handle. -/
def Handle.release (handle : Handle) : Mutation :=
  Edit.mutation handle.transaction handle.releaseEdits

def releases (isLive : LockId → Bool) (snapshots : List Snapshot) : List Mutation :=
  (snapshots.filterMap (Snapshot.dead? isLive)).map Handle.release

theorem sweep_eq (isLive : LockId → Bool) (snapshots : List Snapshot) (store : Memory) :
    sweep isLive snapshots store =
      .ok ⟨(snapshots.filterMap Snapshot.reservation).map Reservation.lock,
          .ok ((store.answers (releases isLive snapshots)).countP (·.2 = .accepted))⟩
        (store.submitAll (releases isLive snapshots)) := by
  induction snapshots generalizing store with
  | nil => rfl
  | cons snapshot rest ih =>
      unfold sweep
      cases held : snapshot.reservation with
      | none =>
          have sent : releases isLive (snapshot :: rest) = releases isLive rest := by
            simp [releases, Snapshot.dead?, held]
          simp only [ih, sent, List.filterMap_cons, held]
      | some reservation =>
          simp only [List.filterMap_cons, held, List.map_cons]
          cases live : isLive reservation.lock with
          | true =>
              have sent : releases isLive (snapshot :: rest) = releases isLive rest := by
                simp [releases, Snapshot.dead?, held, live]
              rw [if_pos rfl, bind_of_ok (ih store), sent]
              rfl
          | false =>
              have dead : snapshot.dead? isLive = some ⟨snapshot.id, reservation⟩ :=
                Snapshot.dead?_eq_some_iff.mpr ⟨rfl, held, live⟩
              have sent : releases isLive (snapshot :: rest) =
                  Handle.release ⟨snapshot.id, reservation⟩ :: releases isLive rest := by
                rw [releases, List.filterMap_cons_some dead, List.map_cons, releases]
              have attempted : (Edit.attempt snapshot.id [.release reservation] :
                  StoreStep Memory Outcome).outcome store =
                  .ok (.ok (store.submit (Handle.release ⟨snapshot.id, reservation⟩)).1)
                    (store.submit (Handle.release ⟨snapshot.id, reservation⟩)).2 := rfl
              rw [if_neg Bool.false_ne_true, bind_of_ok attempted, sent]
              dsimp only
              rw [bind_of_ok (ih _), Memory.answers, Memory.submitAll, List.countP_cons]
              simp only [decide_eq_true_eq]
              rfl

/-! ## What a listing finds -/

/-- A look-up of the transaction reports a reservation whose lock is not live. -/
def Id.Dead (isLive : LockId → Bool) (store : Memory) (id : Id) : Prop :=
  ∃ snapshot reservation, (find id).value? store = some (some snapshot) ∧
    snapshot.reservation = some reservation ∧ isLive reservation.lock = false

theorem value?_find_eq_some_iff {id : Id} {store : Memory} {snapshot : Snapshot} :
    (find id).value? store = some (some snapshot) ↔ id.snapshot? store = some snapshot := by
  unfold Id.snapshot? readable
  cases found : store.read id.text with
  | none =>
      rw [value?, find_of_absent found]
      simp
  | some record =>
      cases read : Snapshot.ofRecord record with
      | ok stored =>
          rw [value?, find_of_ofRecord found read]
          simp [read, Except.toOption]
      | error cause =>
          have failed : find id store = .error (.malformed cause) store := by
            simp only [find, bind, EStateM.bind, RowStore.read, found, read]
            rfl
          rw [value?, failed]
          simp [read, Except.toOption]

theorem Id.dead_iff {isLive : LockId → Bool} {store : Memory} {id : Id} :
    id.Dead isLive store ↔ ∃ reservation, id.reservation? store = some reservation ∧
      isLive reservation.lock = false := by
  unfold Dead reservation?
  simp only [value?_find_eq_some_iff, Option.bind_eq_some_iff]
  constructor
  · rintro ⟨snapshot, reservation, found, reserved, dead⟩
    exact ⟨reservation, ⟨snapshot, found, reserved⟩, dead⟩
  · rintro ⟨reservation, ⟨snapshot, found, reserved⟩, dead⟩
    exact ⟨snapshot, reservation, found, reserved, dead⟩

/-- The handles to the dead reservations of a store, one for each. -/
structure DeadHandles (isLive : LockId → Bool) (store : Memory) (dead : List Handle) : Prop where
  mem_iff : ∀ handle, handle ∈ dead ↔
    handle.transaction.reservation? store = some handle.reservation ∧
      isLive handle.reservation.lock = false
  distinct : (dead.map Handle.transaction).Nodup

theorem DeadHandles.mem_transactions_iff {isLive : LockId → Bool} {store : Memory}
    {dead : List Handle} (found : DeadHandles isLive store dead) {id : Id} :
    id ∈ dead.map Handle.transaction ↔ id.Dead isLive store := by
  rw [List.mem_map, Id.dead_iff]
  constructor
  · rintro ⟨handle, member, rfl⟩
    exact ⟨handle.reservation, (found.mem_iff handle).mp member⟩
  · rintro ⟨reservation, dead⟩
    exact ⟨⟨id, reservation⟩, (found.mem_iff _).mpr dead, rfl⟩

/-- A listing has one snapshot for each record, so the handles that are made of it are those to
the dead reservations. -/
theorem deadHandles_of_listed {isLive : LockId → Bool} {store : Memory}
    {snapshots : List Snapshot}
    (rows : snapshots.map (·.id.text) = store.rows.keys)
    (found : ∀ snapshot ∈ snapshots, find snapshot.id store = .ok (some snapshot) store) :
    DeadHandles isLive store (snapshots.filterMap (Snapshot.dead? isLive)) where
  mem_iff handle := by
    have seen : ∀ snapshot ∈ snapshots, snapshot.id.snapshot? store = some snapshot := by
      intro snapshot member
      exact value?_find_eq_some_iff.mp (by rw [value?, found snapshot member])
    simp only [List.mem_filterMap, Snapshot.dead?_eq_some_iff]
    constructor
    · rintro ⟨snapshot, member, named, reserved, dead⟩
      refine ⟨?_, dead⟩
      rw [← named, Id.reservation?, seen snapshot member, Option.bind_some, reserved]
    · rintro ⟨reserved, dead⟩
      obtain ⟨snapshot, reads, reserved⟩ := Option.bind_eq_some_iff.mp reserved
      obtain ⟨record, stored, _⟩ := Option.bind_eq_some_iff.mp reads
      have among : handle.transaction.text ∈ snapshots.map (·.id.text) := by
        rw [rows]
        exact SortedMap.mem_keys_iff.mpr (Option.isSome_iff_exists.mpr ⟨record, stored⟩)
      obtain ⟨listed, member, same⟩ := List.mem_map.mp among
      have named := Id.text_injective same
      have own := seen listed member
      rw [named, reads] at own
      obtain rfl := Option.some.inj own
      exact ⟨snapshot, member, named, reserved, dead⟩
  distinct := by
    have apart : snapshots.Pairwise fun left right => left.id ≠ right.id := by
      have ascending := store.rows.keys_ascend
      rw [← rows, List.pairwise_map] at ascending
      refine ascending.imp fun {left right} before same => ?_
      have equal : compare right.id.text right.id.text = .eq := Std.ReflCmp.compare_self
      rw [same, equal] at before
      cases before
    refine List.pairwise_map.mpr (List.pairwise_filterMap.mpr (apart.imp ?_))
    intro left right different first foundFirst second foundSecond
    rw [← (Snapshot.dead?_eq_some_iff.mp foundFirst).1,
      ← (Snapshot.dead?_eq_some_iff.mp foundSecond).1]
    exact different

/-! ## Sweeps of stores that keep stacks -/

theorem releaseDead_of_list {isLive : LockId → Bool} {store : Memory}
    {snapshots : List Snapshot} (listed : list store = .ok snapshots store) :
    releaseDead isLive store = sweep isLive snapshots store := by
  have told : (list : StoreStep Memory (List Snapshot)).outcome store =
      .ok (.ok snapshots) store := by
    rw [outcome, listed]
  exact bind_of_ok told _

namespace Stacks

variable {limit : UInt32} {piles : Id → List Bytes} {store : Memory} {uuids : List Uuid}
  {isLive : LockId → Bool}

theorem ready_of_dead (holds : Stacks limit piles store) {dead : List Handle}
    (found : DeadHandles isLive store dead) : store.Ready (dead.map Handle.release) where
  distinct := List.pairwise_map.mpr ((List.pairwise_map.mp found.distinct).imp
    fun apart same => apart (Id.text_injective same))
  holds mutation member := by
    obtain ⟨handle, among, rfl⟩ := List.mem_map.mp member
    have readBack := ((found.mem_iff handle).mp among).1
    have textStands := (holds.reservation?_eq_some_iff.mp readBack).1
    exact (Handle.conditionsHold_iff rfl).mpr textStands

/-- A sweep sends the releases of the dead reservations and counts those that are told to be
accepted. -/
theorem exists_dead (holds : Stacks limit piles store) (registered : Registered uuids store)
    (isLive : LockId → Bool) :
    ∃ dead asked, DeadHandles isLive store dead ∧
      releaseDead isLive store =
        .ok ⟨asked, .ok ((store.answers (dead.map Handle.release)).countP (·.2 = .accepted))⟩
          (store.submitAll (dead.map Handle.release)) := by
  obtain ⟨snapshots, listed, rows, found⟩ := list_of_reads fun row record stored => by
    obtain ⟨id, rfl, _⟩ := registered.drawn row (by rw [stored]; rfl)
    obtain ⟨snapshot, read, named⟩ := holds.exists_ofRecord stored
    exact ⟨snapshot, read, by rw [named]⟩
  exact ⟨_, _, deadHandles_of_listed rows found,
    (releaseDead_of_list listed).trans (sweep_eq isLive snapshots store)⟩

end Stacks

/-! ## What a sweep leaves -/

/-- The transaction had a reservation and has none any more. -/
def Id.Released (before later : Memory) (id : Id) : Prop :=
  before.cell? id.text reservationColumn ≠ none ∧ later.cell? id.text reservationColumn = none

section Released

variable {store : Memory} {handles : List Handle}

/-- Releases take away the reservations of their transactions and nothing else, provided nothing
hides them and each asks for the reservation that stands there. -/
theorem cell?_of_released (ready : store.Ready (handles.map Handle.release))
    (calm : store.faults = []) (row : String) (column : Column) :
    (store.submitAll (handles.map Handle.release)).cell? row column =
      if column = reservationColumn ∧ row ∈ (handles.map Handle.transaction).map Id.text then none
      else store.cell? row column := by
  by_cases member : row ∈ (handles.map Handle.transaction).map Id.text
  · obtain ⟨_, taken, rfl⟩ := List.mem_map.mp member
    obtain ⟨handle, among, rfl⟩ := List.mem_map.mp taken
    have applied : (store.submitAll (handles.map Handle.release)).read handle.transaction.text =
        handle.release.applyTo (store.read handle.transaction.text) :=
      ready.read_submitAll calm (List.mem_map_of_mem among)
    have writes : handle.release.writes = [.delete reservationColumn] := rfl
    rw [Memory.cell?, applied, Mutation.get?_applyTo, writes]
    by_cases same : column = reservationColumn
    · rw [if_pos ⟨same, member⟩]
      simp [Write.onCell, same]
    · simp [Write.onCell, same, Ne.symm same, Memory.cell?]
  · have elsewhere : ∀ mutation ∈ handles.map Handle.release, mutation.row ≠ row := by
      intro mutation sent same
      obtain ⟨handle, among, rfl⟩ := List.mem_map.mp sent
      exact member (same ▸ List.mem_map_of_mem (List.mem_map_of_mem among))
    rw [if_neg fun both => member both.2, Memory.cell?, Memory.read_submitAll_of_ne elsewhere]
    rfl

theorem released_iff (ready : store.Ready (handles.map Handle.release))
    (calm : store.faults = []) {id : Id} :
    id.Released store (store.submitAll (handles.map Handle.release)) ↔
      id ∈ handles.map Handle.transaction := by
  unfold Id.Released
  rw [cell?_of_released ready calm]
  constructor
  · rintro ⟨stored, gone⟩
    by_cases member : id.text ∈ (handles.map Handle.transaction).map Id.text
    · obtain ⟨other, among, same⟩ := List.mem_map.mp member
      exact Id.text_injective same ▸ among
    · rw [if_neg fun both => member both.2] at gone
      exact absurd gone stored
  · intro member
    refine ⟨?_, if_pos ⟨rfl, List.mem_map_of_mem member⟩⟩
    obtain ⟨handle, among, rfl⟩ := List.mem_map.mp member
    have guarded : handle.Matches store :=
      (Handle.conditionsHold_iff rfl).mp (ready.holds _ (List.mem_map_of_mem among))
    rw [guarded]
    exact Option.some_ne_none _

end Released

section Left

variable {store later : Memory}

/-- No row is lost with its reservation, since it has a status. -/
theorem Registered.isSome_read_of_released {uuids : List Uuid}
    (registered : Registered uuids store) (filed : later.Filed) {rows : List String}
    (cells : ∀ row column, later.cell? row column =
      if column = reservationColumn ∧ row ∈ rows then none else store.cell? row column)
    (row : String) : (later.read row).isSome = (store.read row).isSome := by
  cases found : store.read row with
  | none =>
      cases left : later.read row with
      | none => rfl
      | some record =>
          obtain ⟨column, value⟩ := filed.exists_cell left
          rw [cells, Memory.cell?, found, Option.bind_none, ite_self] at value
          exact absurd rfl value
  | some record =>
      obtain ⟨status, cell⟩ := registered.status row (by rw [found]; rfl)
      have kept := cells row statusColumn
      rw [if_neg fun both => absurd both.1 (by decide), cell] at kept
      obtain ⟨left, present, _⟩ := Option.bind_eq_some_iff.mp kept
      rw [present]
      rfl

/-- What is dead afterwards was dead before, and then it has been released. -/
theorem Stacks.eq_nil_of_released {limit : UInt32} {piles : Id → List Bytes}
    {isLive : LockId → Bool} {dead left : List Handle} (holds : Stacks limit piles store)
    (holdsLater : Stacks limit piles later) (found : DeadHandles isLive store dead)
    (cells : ∀ row column, later.cell? row column =
      if column = reservationColumn ∧ row ∈ (dead.map Handle.transaction).map Id.text then none
      else store.cell? row column)
    (foundLater : DeadHandles isLive later left) : left = [] := by
  refine List.eq_nil_iff_forall_not_mem.mpr fun handle member => ?_
  obtain ⟨reserved, unlive⟩ := (foundLater.mem_iff handle).mp member
  obtain ⟨stands, clean⟩ := holdsLater.reservation?_eq_some_iff.mp reserved
  rw [cells] at stands
  split at stands
  · cases stands
  · next kept =>
      have was := holds.reservation?_eq_some_iff.mpr ⟨stands, clean⟩
      have among := (found.mem_iff handle).mpr ⟨was, unlive⟩
      exact kept ⟨rfl, List.mem_map_of_mem (List.mem_map_of_mem among)⟩

end Left

section Swept

variable {limit : UInt32} {piles : Id → List Bytes} {store later : Memory} {uuids : List Uuid}
  {isLive : LockId → Bool} {swept : Sweep}

private theorem store_of_swept (limit : UInt32)
    (ran : releaseDead isLive store = .ok swept later) :
    (Clients.step limit { store } (.request (.releaseDead isLive))).store = later := by
  let reply : StoreStep Memory Reply := do return .swept (← releaseDead isLive)
  have stepped : Clients.step limit { store } (.request (.releaseDead isLive)) =
      (Clients.answer { store } reply).2 := rfl
  have answered : reply store = .ok (.swept swept) later := bind_of_ok ran _
  rw [stepped, Clients.answer]
  dsimp only
  rw [answered]

theorem Stacks.of_swept (holds : Stacks limit piles store)
    (ran : releaseDead isLive store = .ok swept later) : Stacks limit piles later := by
  have alone : Stacks limit piles ({ store } : Clients Memory).store := holds
  have stepped := alone.step (.request (.releaseDead isLive))
  rw [store_of_swept limit ran] at stepped
  exact stepped

theorem Registered.of_swept (registered : Registered uuids store)
    (ran : releaseDead isLive store = .ok swept later) : Registered uuids later := by
  have alone : Registered uuids ({ store } : Clients Memory).store := registered
  have stepped := alone.of_sent
    (Clients.sent_perform 0 { store } (.releaseDead isLive)) nofun
  rw [← store_of_swept 0 ran]
  exact stepped

end Swept

/-! ## Listings that fail -/

/-- Why an entry of a scan gives no snapshot: its record could not be had or does not read. -/
inductive Unlisted : Except Error Record → Error → Prop where
  | missing (error : Error) : Unlisted (.error error) error
  | malformed {record : Record} {cause : Malformed} :
      Snapshot.ofRecord record = .error cause → Unlisted (.ok record) (.malformed cause)

/-- A listing has what each record reads as, in the order of the scan. -/
theorem readAll_eq_ok_iff {entries : List (Except Error Record)} {snapshots : List Snapshot} :
    readAll entries = .ok snapshots ↔ ∃ records : List Record,
      entries = records.map .ok ∧ records.map Snapshot.ofRecord = snapshots.map .ok := by
  constructor
  · intro read
    fun_induction readAll entries generalizing snapshots with
    | case1 =>
        cases read
        exact ⟨[], rfl, rfl⟩
    | case2 => cases read
    | case3 record rest ih =>
        obtain ⟨snapshot, readHead, read⟩ := exists_of_bind read
        obtain ⟨others, readRest, read⟩ := exists_of_bind read
        cases read
        obtain ⟨records, rfl, same⟩ := ih readRest
        refine ⟨record :: records, rfl, ?_⟩
        cases stored : Snapshot.ofRecord record with
        | error cause =>
            rw [stored] at readHead
            cases readHead
        | ok found =>
            rw [stored] at readHead
            cases readHead
            rw [List.map_cons, List.map_cons, stored, same]
  · intro reads
    obtain ⟨records, rfl, same⟩ := reads
    induction records generalizing snapshots with
    | nil =>
        rw [List.map_eq_nil_iff.mp same.symm]
        rfl
    | cons record rest ih =>
        obtain ⟨snapshot, others, rfl, stored, same⟩ := List.map_eq_cons_iff.mp same.symm
        simp only [List.map_cons, readAll, ← stored, ih same.symm]
        rfl

/-- A listing that fails does so for one of the entries. -/
theorem exists_unlisted_of_readAll {entries : List (Except Error Record)} {failure : Error}
    (failed : readAll entries = .error failure) :
    ∃ entry ∈ entries, Unlisted entry failure := by
  induction entries with
  | nil => cases failed
  | cons head rest ih =>
      cases head with
      | error _ =>
          cases failed
          exact ⟨_, List.mem_cons_self, .missing _⟩
      | ok record =>
          cases read : Snapshot.ofRecord record with
          | error cause =>
              simp only [readAll, read] at failed
              cases failed
              exact ⟨_, List.mem_cons_self, .malformed read⟩
          | ok snapshot =>
              cases readRest : readAll rest with
              | ok snapshots =>
                  simp only [readAll, read, readRest] at failed
                  cases failed
              | error error =>
                  simp only [readAll, read, readRest] at failed
                  cases failed
                  obtain ⟨entry, member, unlisted⟩ := ih readRest
                  exact ⟨entry, .tail _ member, unlisted⟩

theorem readAll_of_unlisted {entries : List (Except Error Record)}
    {entry : Except Error Record} {error : Error} (member : entry ∈ entries)
    (unlisted : Unlisted entry error) :
    ∃ first ∈ entries, ∃ failure, Unlisted first failure ∧ readAll entries = .error failure := by
  cases read : readAll entries with
  | error failure =>
      obtain ⟨first, among, unread⟩ := exists_unlisted_of_readAll read
      exact ⟨first, among, failure, unread, rfl⟩
  | ok snapshots =>
      obtain ⟨records, rfl, same⟩ := readAll_eq_ok_iff.mp read
      obtain ⟨record, among, rfl⟩ := List.mem_map.mp member
      have reads : Snapshot.ofRecord record ∈ snapshots.map .ok :=
        same ▸ List.mem_map_of_mem among
      obtain ⟨snapshot, _, stored⟩ := List.mem_map.mp reads
      cases unlisted with
      | malformed unread => cases stored.trans unread

/-- A listing that has no snapshot for some entry leaves nothing to release. -/
theorem releaseDead_of_unlisted {σ : Type} [RowStore σ] {store later : σ}
    {entries : List (Except Error Record)} {entry : Except Error Record} {error : Error}
    (isLive : LockId → Bool) (scanned : RowStore.scan .all store = .ok entries later)
    (member : entry ∈ entries) (unlisted : Unlisted entry error) :
    ∃ first ∈ entries, ∃ failure, Unlisted first failure ∧
      releaseDead isLive store = .ok ⟨[], .error failure⟩ later := by
  obtain ⟨first, among, failure, unread, failed⟩ := readAll_of_unlisted member unlisted
  have listed : (list : StoreStep σ (List Snapshot)) store = .error failure later := by
    unfold list
    rw [bind_of_ok scanned, failed]
    rfl
  have told : (list : StoreStep σ (List Snapshot)).outcome store =
      .ok (.error failure) later := by
    rw [outcome, listed]
  exact ⟨first, among, failure, unread, bind_of_ok told _⟩

theorem releaseDead_of_unread {store : Memory} {row : String} {record : Record}
    {cause : Malformed} (isLive : LockId → Bool) (stored : store.read row = some record)
    (unread : Snapshot.ofRecord record = .error cause) :
    ∃ error, releaseDead isLive store = .ok ⟨[], .error error⟩ store := by
  have among : (.ok record : Except Error Record) ∈ store.rows.values.map .ok :=
    List.mem_map_of_mem (List.mem_map_of_mem (SortedMap.mem_toList_iff.mpr stored))
  obtain ⟨_, _, failure, _, failed⟩ :=
    releaseDead_of_unlisted isLive store.scan_all_step among (.malformed unread)
  exact ⟨failure, failed⟩

/-! ## Runs -/

/-- In every store that a run can leave, with nothing hidden: a sweep gives back the
reservations that a look-up reports with a lock that is not live, tells how many they are,
changes no other cell and removes no row, and the next sweep finds none. A sweep of any store
with a record that does not read fails and changes nothing, and so does one of any store that
cannot hand over some record, as soon as it has scanned the rows. -/
theorem Clients.releaseDead_exact (limit : UInt32) (events : List Event)
    (isLive : LockId → Bool) :
    let store := (start.run limit events).store.told
    (∃ (dead : List Id) (asked again : List LockId) (later : Memory),
      dead.Nodup ∧ (∀ id, id ∈ dead ↔ id.Dead isLive store) ∧
      releaseDead isLive store = .ok ⟨asked, .ok dead.length⟩ later ∧
      (∀ id, id ∈ dead ↔ id.Released store later) ∧
      (∀ row column, later.cell? row column =
        if column = reservationColumn ∧ row ∈ dead.map Id.text then none
        else store.cell? row column) ∧
      (∀ row, (later.read row).isSome = (store.read row).isSome) ∧
      releaseDead isLive later = .ok ⟨again, .ok 0⟩ later) ∧
    (∀ (store : Memory) row record cause, store.read row = some record →
      Snapshot.ofRecord record = .error cause →
      ∃ error, releaseDead isLive store = .ok ⟨[], .error error⟩ store) ∧
    ∀ (σ : Type) [RowStore σ] (store later : σ) (entries : List (Except Error Record)),
      RowStore.scan .all store = .ok entries later →
      ∀ entry ∈ entries, ∀ error, Unlisted entry error →
        ∃ first ∈ entries, ∃ failure, Unlisted first failure ∧
          releaseDead isLive store = .ok ⟨[], .error failure⟩ later := by
  intro store
  refine ⟨?_,
    fun store row record cause stored unread => releaseDead_of_unread isLive stored unread,
    fun σ _ store later entries scanned entry member error unlisted =>
      releaseDead_of_unlisted isLive scanned member unlisted⟩
  have holds : Stacks limit _ store := Stacks.reached limit events []
  have registered : Registered _ store := Registered.reached limit events []
  have calm : store.faults = [] := rfl
  obtain ⟨dead, asked, found, ran⟩ := holds.exists_dead registered isLive
  have ready := holds.ready_of_dead found
  have cells := cell?_of_released ready calm
  have holdsLater := holds.of_swept ran
  obtain ⟨left, again, foundLater, ranLater⟩ :=
    holdsLater.exists_dead (registered.of_swept ran) isLive
  obtain rfl := holds.eq_nil_of_released holdsLater found cells foundLater
  rw [ready.count_accepted_of_calm calm, List.length_map, ← List.length_map] at ran
  exact ⟨dead.map Handle.transaction, asked, again, _, found.distinct,
    fun id => found.mem_transactions_iff, ran, fun id => (released_iff ready calm).symm, cells,
    registered.isSome_read_of_released holdsLater.filed cells, ranLater⟩

/-- Two transactions are reserved, one of them with a slash in the node of its lock. -/
def twoReserved : List Event :=
  [.request (.create .user (uuidOf 1) 0),
    .request (.create .user (uuidOf 2) 0),
    .request (.tryReserve ⟨.user, uuidOf 1⟩ slashed (uuidOf 3) "dead"),
    .request (.tryReserve ⟨.user, uuidOf 2⟩ ⟨"p", "n", 7⟩ (uuidOf 4) "live")]

/-- A row that is no transaction. -/
def strayRow : Memory := Memory.empty.setRow "stray" (some (.blank "stray"))

/-- The reservation with the slash is released and the other one kept, and the stray row makes a
sweep fail. -/
theorem Clients.releaseDead_exact_twoReserved :
    let isLive : LockId → Bool := fun lock => lock.node = "n"
    let store := (start.run 100 twoReserved).store.told
    (∃ asked count later, releaseDead isLive store = .ok ⟨asked, .ok count⟩ later ∧
      Id.Released store later ⟨.user, uuidOf 1⟩ ∧ ¬Id.Released store later ⟨.user, uuidOf 2⟩) ∧
    ∃ error, releaseDead isLive strayRow = .ok ⟨[], .error error⟩ strayRow := by
  intro isLive store
  have stored : Id.reservation? ⟨.user, uuidOf 1⟩ store =
        some ⟨⟨"p/a", "b", 1⟩, uuidOf 3⟩ ∧
      Id.reservation? ⟨.user, uuidOf 2⟩ store = some ⟨⟨"p", "n", 7⟩, uuidOf 4⟩ := by
    decide +kernel
  have stray : strayRow.read "stray" = some (.blank "stray") := rfl
  obtain ⟨⟨dead, asked, _, later, _, mem, ran, released, _⟩, unread, _⟩ :=
    releaseDead_exact 100 twoReserved isLive
  refine ⟨⟨asked, _, later, ran, ?_, fun gone => ?_⟩,
    unread strayRow "stray" _ (.transactionId "stray") stray (by rfl)⟩
  · exact (released _).mp ((mem _).mpr (Id.dead_iff.mpr ⟨_, stored.1, by decide⟩))
  · obtain ⟨reservation, reserved, unlive⟩ := Id.dead_iff.mp ((mem _).mp ((released _).mpr gone))
    rw [stored.2] at reserved
    cases reserved
    exact absurd unlive (by decide)

end GuardedRows.Tx
