import GuardedRows.SortedMap.Lemmas
import GuardedRows.Proofs.Store.Memory
import GuardedRows.Proofs.Text.ByteOrder

/-!
# Reading and scanning

A scan finds what reading the rows of its range one by one would find, in the order of the
rows. The bounds that a scan goes by agree with the two tests for rows outside its range.
-/

set_option autoImplicit false

namespace GuardedRows

/-! ## Bounds -/

namespace ScanRange

theorem begunAt_start (range : ScanRange) (row : String) :
    range.start.begunAt row = !range.isBeforeStart row := by
  unfold isBeforeStart
  cases range.start with
  | unbounded => rfl
  | inclusive first =>
      simp only [Bound.begunAt, ne_eq, Text.compare_eq_gt_iff, decide_not]
  | exclusive first =>
      simp only [Bound.begunAt, Text.compare_eq_lt_iff, ← String.not_le, decide_not]

theorem overAt_stop (range : ScanRange) (row : String) :
    range.stop.overAt row = range.isPastEnd row := by
  unfold isPastEnd
  cases range.stop with
  | unbounded => rfl
  | inclusive last => simp only [Bound.overAt, Text.compare_eq_gt_iff]
  | exclusive last =>
      simp only [Bound.overAt, ne_eq, Text.compare_eq_lt_iff, String.not_lt]

end ScanRange

namespace Memory

variable {store : Memory}

theorem mem_scan_iff {range : ScanRange} {record : Record} :
    record ∈ store.scan range ↔
      ∃ row, store.read row = some record ∧ range.isBeforeStart row = false ∧
        range.isPastEnd row = false := by
  unfold scan
  simp only [List.mem_map, Prod.exists, SortedMap.mem_range_iff, ScanRange.begunAt_start,
    ScanRange.overAt_stop, Bool.not_eq_true']
  constructor
  · rintro ⟨row, found, inside, rfl⟩
    exact ⟨row, inside⟩
  · rintro ⟨row, inside⟩
    exact ⟨row, record, inside, rfl⟩

theorem scan_all (store : Memory) : store.scan .all = store.rows.values := by
  rw [scan, SortedMap.range_eq_filter, SortedMap.values]
  exact congrArg (List.map Prod.snd) (List.filter_eq_self.mpr fun _ _ => rfl)

theorem scan_all_step (store : Memory) :
    (RowStore.scan .all : StoreStep Memory _) store =
      .ok (store.rows.values.map .ok) store := by
  rw [← scan_all]
  rfl

theorem Filed.scan_ascends (filed : store.Filed) (range : ScanRange) :
    (store.scan range).Pairwise fun left right => left.row < right.row := by
  refine List.pairwise_map.mpr ?_
  refine List.Pairwise.imp_of_mem ?_ (store.rows.range_ascending range.start range.stop)
  rintro ⟨lower, left⟩ ⟨upper, right⟩ memberLeft memberRight order
  have foundLeft : store.read lower = some left := (SortedMap.mem_range_iff.mp memberLeft).1
  have foundRight : store.read upper = some right := (SortedMap.mem_range_iff.mp memberRight).1
  dsimp only
  rw [filed.row lower left foundLeft, filed.row upper right foundRight]
  exact Text.compare_eq_lt_iff.mp order

theorem Filed.rowAbsent_iff (filed : store.Filed) (row : String) :
    Condition.rowAbsent.holds (store.read row) = true ↔ store.read row = none := by
  cases found : store.read row with
  | none => simp [Condition.holds]
  | some record => simp [Condition.holds, filed.cell row record found]

theorem rows_of_rejected {mutation : Mutation} (rejected : (store.submit mutation).1 = .rejected) :
    (store.submit mutation).2.rows = store.rows := by
  cases landed : store.lands mutation with
  | true =>
      rw [submit_of_lands landed] at rejected
      dsimp only at rejected
      split at rejected <;> cases rejected
  | false => rw [submit_of_not_lands landed]

/-- In a store that is made by submissions, with any faults: every record has a column and
names its own row, a row is absent to a condition just if nothing is read from it, a
rejection changes no row and a submission none but its own, and a scan yields once and in the
byte order of the rows what is read from the rows of its range. -/
theorem Built.reads_and_scans (built : store.Built) :
    (∀ row, ∀ record ∈ store.read row,
      (∃ column, record.contains column = true) ∧ record.row = row) ∧
    (∀ row, Condition.rowAbsent.holds (store.read row) = true ↔ store.read row = none) ∧
    (∀ mutation, (store.submit mutation).1 = .rejected →
      (store.submit mutation).2.rows = store.rows) ∧
    (∀ mutation row, row ≠ mutation.row →
      (store.submit mutation).2.read row = store.read row) ∧
    ∀ range : ScanRange,
      (store.scan range).Pairwise
        (fun left right => Bytes.ofText left.row < Bytes.ofText right.row) ∧
      ∀ record, record ∈ store.scan range ↔
        ∃ row, store.read row = some record ∧ range.isBeforeStart row = false ∧
          range.isPastEnd row = false := by
  have filed := built.filed
  refine ⟨fun row record found => ⟨?_, filed.row row record found⟩, filed.rowAbsent_iff,
    fun mutation rejected => rows_of_rejected rejected, fun mutation row apart => ?_,
    fun range => ⟨?_, fun record => mem_scan_iff⟩⟩
  · obtain ⟨column, value⟩ := filed.exists_cell found
    rw [cell?, found] at value
    exact ⟨column, Option.isSome_iff_ne_none.mpr value⟩
  · rw [read_submit, if_neg fun both => apart both.1]
  · exact (filed.scan_ascends range).imp Text.ofText_lt_ofText_iff.mpr

/-- Two rows, and a third one that was dropped unseen. -/
def twoRows : Memory :=
  let put (row : String) : Mutation := ⟨row, [.rowAbsent], [.put ⟨"f", "q"⟩ [1]]⟩
  ((((empty.submit (put "b")).2.submit (put "a")).2.addFault .dropped).submit (put "c")).2

theorem Built.reads_and_scans_twoRows :
    (⟨"b", .ofList [(⟨"f", "q"⟩, [1])]⟩ : Record) ∈
      twoRows.scan ⟨.exclusive "a", .inclusive "c"⟩ := by
  have built : twoRows.Built := (((Built.empty.submit _).submit _).addFault _).submit _
  obtain ⟨_, _, _, _, scans⟩ := built.reads_and_scans
  exact ((scans ⟨.exclusive "a", .inclusive "c"⟩).2 _).mpr ⟨"b", by decide +kernel⟩

end Memory

end GuardedRows
