import GuardedRows.Proofs.Text.ByteOrder
import GuardedRows.Proofs.Tx.IdText
import GuardedRows.Proofs.Tx.Sweep

/-!
# The order of a listing

Ids are ordered as the bytes of the rows that hold their transactions. So whatever store hands
over its rows in ascending order, the transactions are listed in the order of their ids, unless
some row has no snapshot.
-/

set_option autoImplicit false

namespace GuardedRows.Tx

open StoreStep

theorem Id.compare_eq_lt_iff_bytes {left right : Id} :
    compare left right = .lt ↔ Bytes.ofText left.text < Bytes.ofText right.text :=
  Id.compare_eq_lt_iff.trans Text.ofText_lt_ofText_iff.symm

/-- Records in ascending rows, each of them the text of an id. -/
structure IdRows (records : List Record) : Prop where
  named : ∀ record ∈ records, ∃ id : Id, record.row = id.text
  ascend : records.Pairwise fun left right => Bytes.ofText left.row < Bytes.ofText right.row

theorem Snapshot.text_id_of_ofRecord {record : Record} {snapshot : Snapshot}
    (read : ofRecord record = .ok snapshot) (named : ∃ id : Id, record.row = id.text) :
    record.row = snapshot.id.text := by
  obtain ⟨id, row⟩ := named
  obtain ⟨parsed, _⟩ := fields_of_ofRecord read
  rw [row, Id.parse_text] at parsed
  rw [row, Except.ok.inj parsed]

private theorem rows_eq_of_read {records : List Record} {snapshots : List Snapshot}
    (named : ∀ record ∈ records, ∃ id : Id, record.row = id.text)
    (read : records.map Snapshot.ofRecord = snapshots.map .ok) :
    records.map Record.row = snapshots.map (·.id.text) := by
  induction records generalizing snapshots with
  | nil =>
      rw [List.map_eq_nil_iff.mp read.symm]
      rfl
  | cons record rest ih =>
      obtain ⟨snapshot, others, rfl, stored, readRest⟩ := List.map_eq_cons_iff.mp read.symm
      have row := Snapshot.text_id_of_ofRecord stored.symm (named record List.mem_cons_self)
      have rows := ih (fun record member => named record (.tail _ member)) readRest.symm
      rw [List.map_cons, List.map_cons, row, rows]

theorem IdRows.ids_ascend {records : List Record} {snapshots : List Snapshot}
    (rows : IdRows records) (read : records.map Snapshot.ofRecord = snapshots.map .ok) :
    snapshots.Pairwise fun left right => compare left.id right.id = .lt := by
  have ascend : (records.map Record.row).Pairwise fun left right =>
      Bytes.ofText left < Bytes.ofText right := List.pairwise_map.mpr rows.ascend
  rw [rows_eq_of_read rows.named read] at ascend
  exact (List.pairwise_map.mp ascend).imp Id.compare_eq_lt_iff_bytes.mpr

private theorem filterMap_toOption_ok (records : List Record) :
    (records.map fun record => (.ok record : Except Error Record)).filterMap Except.toOption =
      records := by
  rw [List.filterMap_map]
  exact List.filterMap_some

/-- A listing of such rows has all of them, in the order of the ids, or fails for one that has
no snapshot. -/
theorem list_of_idRows {σ : Type} [RowStore σ] {store later : σ}
    {entries : List (Except Error Record)}
    (scanned : RowStore.scan .all store = .ok entries later)
    (rows : IdRows (entries.filterMap Except.toOption)) :
    (∃ (records : List Record) (snapshots : List Snapshot),
      list store = .ok snapshots later ∧ entries = records.map .ok ∧
      records.map Snapshot.ofRecord = snapshots.map .ok ∧
      snapshots.Pairwise fun left right => compare left.id right.id = .lt) ∨
    ∃ entry ∈ entries, ∃ failure, Unlisted entry failure ∧
      (list : StoreStep σ (List Snapshot)) store = .error failure later := by
  have listed : (list : StoreStep σ (List Snapshot)) store =
      StoreStep.ofExcept (readAll entries) later := bind_of_ok scanned _
  cases read : readAll entries with
  | ok snapshots =>
      obtain ⟨records, rfl, same⟩ := readAll_eq_ok_iff.mp read
      rw [filterMap_toOption_ok] at rows
      rw [read] at listed
      exact .inl ⟨records, snapshots, listed, rfl, same, rows.ids_ascend same⟩
  | error failure =>
      obtain ⟨entry, member, unlisted⟩ := exists_unlisted_of_readAll read
      rw [read] at listed
      exact .inr ⟨entry, member, failure, unlisted, listed⟩

theorem idRows_of_filed {store : Memory} (filed : store.Filed)
    (named : ∀ row, (store.read row).isSome = true → ∃ id : Id, row = id.text) :
    IdRows store.rows.values := by
  have scanned := filed.scan_ascends .all
  rw [Memory.scan_all] at scanned
  refine ⟨fun record member => ?_, scanned.imp Text.ofText_lt_ofText_iff.mpr⟩
  obtain ⟨⟨row, _⟩, among, rfl⟩ := List.mem_map.mp member
  have stored := SortedMap.mem_toList_iff.mp among
  rw [filed.row row _ stored]
  exact named row (Option.isSome_iff_exists.mpr ⟨_, stored⟩)

/-- Ids are ordered as the bytes of their texts. So if a store hands over its rows in ascending
order and each is the text of an id, its listing is in the order of the ids, and so is the
listing of rows in memory, which has what every record reads as. A listing fails only for an
entry that has no snapshot. -/
theorem ids_ordered_as_rows :
    (∀ left right : Id,
      compare left right = .lt ↔ Bytes.ofText left.text < Bytes.ofText right.text) ∧
    (∀ (σ : Type) [RowStore σ] (store later : σ) (entries : List (Except Error Record)),
      RowStore.scan .all store = .ok entries later →
      IdRows (entries.filterMap Except.toOption) →
      (∃ (records : List Record) (snapshots : List Snapshot),
        list store = .ok snapshots later ∧ entries = records.map .ok ∧
        records.map Snapshot.ofRecord = snapshots.map .ok ∧
        snapshots.Pairwise fun left right => compare left.id right.id = .lt) ∨
      ∃ entry ∈ entries, ∃ failure, Unlisted entry failure ∧
        (list : StoreStep σ (List Snapshot)) store = .error failure later) ∧
    ∀ store : Memory, store.Filed →
      (∀ row, (store.read row).isSome = true → ∃ id : Id, row = id.text) →
      (∃ snapshots, list store = .ok snapshots store ∧
        store.rows.values.map Snapshot.ofRecord = snapshots.map .ok ∧
        snapshots.Pairwise fun left right => compare left.id right.id = .lt) ∨
      ∃ record ∈ store.rows.values, ∃ cause, Snapshot.ofRecord record = .error cause ∧
        (list : StoreStep Memory (List Snapshot)) store = .error (.malformed cause) store := by
  refine ⟨fun _ _ => Id.compare_eq_lt_iff_bytes,
    fun _ _ _ _ _ scanned rows => list_of_idRows scanned rows, ?_⟩
  intro store filed named
  have rows := idRows_of_filed filed named
  rw [← filterMap_toOption_ok store.rows.values] at rows
  rcases list_of_idRows store.scan_all_step rows with
    ⟨records, snapshots, listed, handed, read, ascend⟩ |
    ⟨entry, member, failure, unlisted, failed⟩
  · have same : store.rows.values = records := by
      have taken := congrArg (List.filterMap Except.toOption) handed
      rwa [filterMap_toOption_ok, filterMap_toOption_ok] at taken
    exact .inl ⟨snapshots, listed, same ▸ read, ascend⟩
  · obtain ⟨record, among, rfl⟩ := List.mem_map.mp member
    cases unlisted with
    | malformed unread => exact .inr ⟨record, among, _, unread, failed⟩

/-- The transaction that comes first in the order of ids is created last. -/
def twoInstances : List Event :=
  [.request (.create .user (uuidOf 1) 0), .request (.create .system (uuidOf 2) 0)]

theorem ids_ordered_as_rows_twoInstances :
    let store := (Clients.start.run 100 twoInstances).store
    Bytes.ofText (Id.text ⟨.system, uuidOf 2⟩) < Bytes.ofText (Id.text ⟨.user, uuidOf 1⟩) ∧
      ∃ snapshots, list store = .ok snapshots store ∧
        snapshots.map Snapshot.id = [⟨.system, uuidOf 2⟩, ⟨.user, uuidOf 1⟩] ∧
        snapshots.Pairwise fun left right => compare left.id right.id = .lt := by
  intro store
  have holds := (Stacks.start 100).run twoInstances
  have named : ∀ row, (store.read row).isSome = true → ∃ id : Id, row = id.text := by
    intro row stored
    obtain ⟨id, rfl, _⟩ := (Registered.empty.run twoInstances).drawn row stored
    exact ⟨id, rfl⟩
  have ids : (store.rows.values.map Snapshot.ofRecord).map
        (fun read => read.toOption.map Snapshot.id) =
      [some ⟨.system, uuidOf 2⟩, some ⟨.user, uuidOf 1⟩] := by
    decide +kernel
  have below : compare (⟨.system, uuidOf 2⟩ : Id) ⟨.user, uuidOf 1⟩ = .lt := rfl
  refine ⟨(ids_ordered_as_rows.1 _ _).mp below, ?_⟩
  rcases ids_ordered_as_rows.2.2 store holds.filed named with
    ⟨snapshots, listed, read, ascend⟩ | ⟨record, member, cause, unread, _⟩
  · rw [read, List.map_map] at ids
    have same : (snapshots.map Snapshot.id).map some =
        [⟨.system, uuidOf 2⟩, ⟨.user, uuidOf 1⟩].map some := by
      rw [List.map_map]
      exact ids
    exact ⟨snapshots, listed, (List.map_inj_right fun _ _ => Option.some.inj).mp same, ascend⟩
  · have missing : none ∈ (store.rows.values.map Snapshot.ofRecord).map
        (fun read => read.toOption.map Snapshot.id) :=
      List.mem_map.mpr ⟨_, List.mem_map_of_mem member, by rw [unread]; rfl⟩
    rw [ids] at missing
    exact absurd missing (by decide)

end GuardedRows.Tx
