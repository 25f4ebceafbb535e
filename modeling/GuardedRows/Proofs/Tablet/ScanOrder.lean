import GuardedRows.Proofs.Tablet.Chain
import GuardedRows.Proofs.Tablet.PassEffect

/-!
# The order in which tablets are read

Whatever a store holds, the tablets that are read from a row on belong to the table, do not end
before the row, and come in the order of their end rows; of a whole table they are the tablets
from the one that holds the row on. So a pass meets no tablet twice and none that ends before its
range, and all that can break it off are a table that is not online and a record that does not
read.
-/

set_option autoImplicit false

namespace GuardedRows.Tablet

open StoreStep

variable {store : Memory} {table : TableId} {start : Option String}

/-! ## Suffixes of chains -/

/-- The tablets of a chain that do not end before a row begin with the one that holds it. -/
theorem Chain.exists_suffix {previous : Option String} {tablets : List Metadata} {row : String}
    (chain : Chain table previous tablets) (behind : ∀ begin ∈ previous, begin < row) :
    ∃ passed home rest, tablets = passed ++ home :: rest ∧
      tablets.filter (·.reaches (some row)) = home :: rest ∧
      home.extent.contains row = true := by
  induction chain with
  | @last previous tablet extent =>
      refine ⟨[], tablet, [], rfl, ?_, ?_⟩
      · simp [Metadata.reaches, extent]
      · simpa [Extent.contains, extent, Option.all_eq_true] using behind
  | @next previous endRow tablet rest extent order chain ih =>
      by_cases within : row ≤ endRow
      · have later : ∀ other ∈ rest, other.reaches (some row) = true := by
          intro other member
          rw [Metadata.reaches_iff]
          intro first same last ends
          cases Option.mem_some.mp same
          have above := (chain.above (Option.mem_some_self endRow) other member).2 last ends
          exact Std.le_trans within (Std.le_of_lt above)
        refine ⟨[], tablet, rest, rfl, ?_, ?_⟩
        · have reached : tablet.reaches (some row) = true := by
            simp [Metadata.reaches, extent, within]
          rw [List.filter_cons_of_pos reached, List.filter_eq_self.mpr later]
        · simp only [Extent.contains, extent, Option.all_some, within, decide_true,
            Bool.and_true, Option.all_eq_true, decide_eq_true_eq]
          exact behind
      · have passes : endRow < row := String.not_le.mp within
        have ended : ¬ tablet.reaches (some row) = true := by
          simp [Metadata.reaches, extent, passes]
        obtain ⟨passed, home, others, shape, reached, holds⟩ :=
          ih fun begin same => Option.mem_some.mp same ▸ passes
        exact ⟨tablet :: passed, home, others, by rw [shape]; rfl,
          (List.filter_cons_of_neg ended).trans reached, holds⟩

/-! ## What is read -/

/-- The tablets among what a scan yields. -/
def readable (scanned : List (Except Error Metadata)) : List Metadata :=
  scanned.filterMap Except.toOption

theorem toOption_eq_some_iff {α : Type} {read : Except Error α} {value : α} :
    read.toOption = some value ↔ read = .ok value := by
  cases read <;> simp [Except.toOption]

theorem mem_readable_iff {scanned : List (Except Error Metadata)} {tablet : Metadata} :
    tablet ∈ readable scanned ↔ .ok tablet ∈ scanned := by
  simp [readable, List.mem_filterMap, toOption_eq_some_iff]

section Filed

variable (filed : store.Filed) (named : separator ∉ table.text.toList)

include filed named

theorem exists_found_of_mem {tablet : Metadata}
    (member : tablet ∈ readable (scannedFrom store table start)) :
    ∃ record, Found store table start record tablet := by
  obtain ⟨record, scanned, reads⟩ := List.mem_map.mp (mem_readable_iff.mp member)
  exact ⟨record, .of_mem_scan filed named scanned (readRow_ok_iff.mp reads)⟩

theorem readable_ascends :
    (readable (scannedFrom store table start)).Pairwise fun left right =>
      EndsBefore left.extent.endRow right.extent.endRow := by
  rw [readable, scannedFrom, List.filterMap_map, List.pairwise_filterMap]
  apply (filed.scan_ascends _).imp_of_mem
  intro first second memberFirst memberSecond below left readLeft right readRight
  have foundLeft := Found.of_mem_scan filed named memberFirst
    (readRow_ok_iff.mp (toOption_eq_some_iff.mp readLeft))
  have foundRight := Found.of_mem_scan filed named memberSecond
    (readRow_ok_iff.mp (toOption_eq_some_iff.mp readRight))
  rw [foundLeft.row_eq, foundRight.row_eq] at below
  exact metadataRow_lt_iff.mp below

end Filed

/-- The tablets of a table from a row on are the last of its chain, from the one that holds the
row. -/
theorem Holds.exists_suffix {tablets : List Metadata} (holds : Holds store table tablets)
    (filed : store.Filed) (start : Option String) :
    ∃ passed remaining, tablets = passed ++ remaining ∧
      scannedFrom store table start = remaining.map .ok ∧ (start = none → passed = []) ∧
      ∀ row ∈ start, ∃ home rest, remaining = home :: rest ∧
        home.extent.contains row = true := by
  rw [holds.scannedFrom_eq filed]
  cases start with
  | none =>
      have all : tablets.filter (·.reaches none) = tablets :=
        List.filter_eq_self.mpr fun tablet _ => rfl
      exact ⟨[], tablets, rfl, by rw [all], fun _ => rfl, fun row same => nomatch same⟩
  | some row =>
      have behind : ∀ begin ∈ (none : Option String), begin < row := by simp
      obtain ⟨passed, home, rest, shape, reached, inside⟩ := holds.chain.exists_suffix behind
      refine ⟨passed, home :: rest, shape, by rw [reached], by simp, ?_⟩
      intro other same
      cases Option.mem_some.mp same
      exact ⟨home, rest, rfl, inside⟩

/-! ## Failures -/

theorem malformed_of_mem_scannedFrom {failure : Error}
    (member : .error failure ∈ scannedFrom store table start) :
    ∃ cause, failure = .malformed cause := by
  obtain ⟨record, _, failed⟩ := List.mem_map.mp member
  exact malformed_of_readRow failed

theorem malformed_of_unread {failure : Error} (unread : Batch.Unread Memory failure) :
    ∃ cause, failure = .malformed cause := by
  obtain ⟨extent, store, seen, failed⟩ := unread
  rw [find_eq_lookUp] at failed
  cases looked : lookUp store extent with
  | ok current =>
      rw [looked] at failed
      cases failed
  | error other =>
      rw [looked] at failed
      cases failed
      exact malformed_of_lookUp looked

namespace AvailabilityChange

variable {σ : Type} {change : AvailabilityChange} {scanned : List (Except Error Metadata)}
  {batch : Batch σ Outcome}

/-- What a visit relies on while it goes through scanned tablets. -/
structure Clear (change : AvailabilityChange) (scanned : List (Except Error Metadata))
    (batch : Batch σ Outcome) : Prop where
  idle : batch.Idle
  reached : ∀ tablet ∈ readable scanned, change.endsBeforeScan tablet = none
  distinct : (readable scanned).Pairwise fun left right => left.extent ≠ right.extent
  fresh : ∀ tablet ∈ readable scanned, tablet.extent ∉ batch.submitted

namespace Clear

variable {tablet : Metadata}

theorem skip (clear : Clear change (.ok tablet :: scanned) batch) :
    Clear change scanned batch where
  idle := clear.idle
  reached other member := clear.reached other (List.mem_cons_of_mem tablet member)
  distinct := (List.pairwise_cons.mp clear.distinct).2
  fresh other member := clear.fresh other (List.mem_cons_of_mem tablet member)

theorem submit {later : Batch σ Outcome} (clear : Clear change (.ok tablet :: scanned) batch)
    (idle : later.Idle) (submitted : later.submitted = batch.submitted ++ [tablet.extent]) :
    Clear change scanned later := by
  refine { clear.skip with idle, fresh := fun other member known => ?_ }
  rw [submitted] at known
  cases List.mem_append.mp known with
  | inl known => exact clear.skip.fresh other member known
  | inr same =>
      have apart := (List.pairwise_cons.mp clear.distinct).1 other member
      exact apart (List.mem_singleton.mp same).symm

/-- A visit leaves nothing in flight, or it meets a record that does not read. -/
theorem visit [RowStore σ] (clear : Clear change scanned batch) :
    (∃ later, change.visit scanned batch = .ok () later ∧ later.Idle) ∨
    ∃ failure later, change.visit scanned batch = .error failure later ∧
      (.error failure ∈ scanned ∨ Batch.Unread σ failure) := by
  induction scanned generalizing batch with
  | nil => exact .inl ⟨batch, rfl, clear.idle⟩
  | cons head rest ih =>
      cases head with
      | error failure => exact .inr ⟨failure, batch, rfl, .inl List.mem_cons_self⟩
      | ok tablet =>
          have onwards : ∀ {between : Batch σ Outcome}, Clear change rest between →
              (∃ later, change.visit rest between = .ok () later ∧ later.Idle) ∨
              ∃ failure later, change.visit rest between = .error failure later ∧
                (.error failure ∈ .ok tablet :: rest ∨ Batch.Unread σ failure) := by
            intro between clear
            apply (ih clear).imp_right
            rintro ⟨failure, later, ran, cause⟩
            exact ⟨failure, later, ran, cause.imp_left (List.mem_cons_of_mem _)⟩
          have first : tablet ∈ readable (.ok tablet :: rest) := List.mem_cons_self
          unfold AvailabilityChange.visit
          rw [clear.reached tablet first]
          dsimp only
          split
          · exact .inl ⟨batch, rfl, clear.idle⟩
          · split
            · exact onwards clear.skip
            · have taken : Batch.refusal? batch.submitted tablet.extent change.edits = none :=
                Batch.refusal?_eq_none_iff.mpr ⟨rfl, clear.fresh tablet first⟩
              cases clear.idle.submit taken note change.isDone with
              | inl sent =>
                  obtain ⟨later, sent, idle, submitted⟩ := sent
                  rw [bind_of_ok sent]
                  exact onwards (clear.submit idle submitted)
              | inr failed =>
                  obtain ⟨failure, later, failed, unread⟩ := failed
                  exact .inr ⟨failure, later, bind_of_error failed _, .inr unread⟩

theorem idle_of_visit [RowStore σ] (clear : Clear change scanned batch) {later : Batch σ Outcome}
    (ran : change.visit scanned batch = .ok () later) : later.Idle := by
  rcases clear.visit with ⟨last, done, idle⟩ | ⟨failure, last, failed, _⟩
  · cases done.symm.trans ran
    exact idle
  · cases failed.symm.trans ran

theorem unread_of_visit [RowStore σ] (clear : Clear change scanned batch) {failure : Error}
    {later : Batch σ Outcome} (ran : change.visit scanned batch = .error failure later) :
    .error failure ∈ scanned ∨ Batch.Unread σ failure := by
  rcases clear.visit with ⟨last, done, _⟩ | ⟨other, last, failed, cause⟩
  · cases done.symm.trans ran
  · cases failed.symm.trans ran
    exact cause

end Clear

section Filed

variable (filed : store.Filed) (named : separator ∉ change.table.text.toList)

include filed named

theorem clear_scannedFrom :
    Clear change (scannedFrom store change.table change.scanStart)
      ({ store } : Batch Memory Outcome) where
  idle := ⟨rfl, rfl, rfl⟩
  reached tablet member := by
    obtain ⟨record, found⟩ := exists_found_of_mem filed named member
    exact endsBeforeScan_eq_none_iff.mpr found.reached
  distinct := by
    apply (readable_ascends filed named).imp
    intro left right before same
    rw [same] at before
    exact EndsBefore.irrefl _ before
  fresh _ _ := List.not_mem_nil

theorem malformed_of_pass {failure : Error} {later : Memory}
    (ran : change.pass store = .error failure later) : ∃ cause, failure = .malformed cause := by
  have clear := clear_scannedFrom filed named
  unfold pass at ran
  rw [bind_of_ok (overlapping_eq_scannedFrom store _ _)] at ran
  obtain ⟨batch, visited⟩ := Batch.error_of_run (fun _ => clear.idle_of_visit) ran
  cases clear.unread_of_visit visited with
  | inl yielded => exact malformed_of_mem_scannedFrom yielded
  | inr unread => exact malformed_of_unread unread

/-- A pass breaks off because its table is not online or because a record does not read. -/
theorem tableOffline_or_malformed {catalog : Catalog} {config : Config} {elapsed : Duration}
    {failure : Error} {later : Memory}
    (ran : change.isReady catalog config elapsed store = .error failure later) :
    (∃ description, failure = .tableOffline change.table.text description) ∨
      ∃ cause, failure = .malformed cause := by
  unfold isReady at ran
  dsimp only at ran
  split at ran
  · cases ran
    exact .inl ⟨_, rfl⟩
  · right
    cases passed : change.pass store with
    | ok outcomes between =>
        rw [bind_of_ok passed] at ran
        cases ran
    | error other between =>
        rw [bind_of_error passed] at ran
        cases ran
        exact malformed_of_pass filed named passed

end Filed

end AvailabilityChange

/-- Whatever is in the rows of a store: all that is read from a table from a row on are tablets of
the table that do not end before the row, in ascending order of their end rows with the missing
one last. Where the rows are a chain of tablets, these are the tablets from the one that holds the
row on, or all of them. And no change of availability breaks off because its scan, its batch or
its mutations are refused. -/
theorem overlapping_in_order (table : TableId) (named : separator ∉ table.text.toList)
    (store : Memory) (filed : store.Filed) (start : Option String) :
    ∃ scanned, overlapping table start store = .ok scanned store ∧
      (∀ tablet ∈ readable scanned, tablet.extent.table = table ∧
        ∀ row ∈ start, ∀ endRow ∈ tablet.extent.endRow, row ≤ endRow) ∧
      ((readable scanned).Pairwise fun left right =>
        EndsBefore left.extent.endRow right.extent.endRow) ∧
      (∀ tablets, Holds store table tablets →
        ∃ passed remaining, tablets = passed ++ remaining ∧ scanned = remaining.map .ok ∧
          (start = none → passed = []) ∧
          ∀ row ∈ start, ∃ home rest, remaining = home :: rest ∧
            home.extent.contains row = true) ∧
      ∀ (change : AvailabilityChange) (catalog : Catalog) (config : Config) (elapsed : Duration)
        (failure : Error) (later : Memory), change.table = table →
        change.isReady catalog config elapsed store = .error failure later →
        ∀ refusal, failure ≠ .refused refusal := by
  refine ⟨scannedFrom store table start, overlapping_eq_scannedFrom store table start, ?_,
    readable_ascends filed named, fun tablets holds => holds.exists_suffix filed start, ?_⟩
  · intro tablet member
    obtain ⟨record, found⟩ := exists_found_of_mem filed named member
    exact ⟨found.table, Metadata.reaches_iff.mp found.reached⟩
  · rintro change catalog config elapsed failure later rfl ran refusal same
    rcases AvailabilityChange.tableOffline_or_malformed filed named ran with
      ⟨description, offline⟩ | ⟨cause, malformed⟩
    · cases offline.symm.trans same
    · cases malformed.symm.trans same

/-- Of two tablets the second holds the row to start from. -/
theorem overlapping_in_order_twoTablets :
    ∃ home rest, overlapping ⟨"t"⟩ (some "n") twoTabletStore =
        .ok ((home :: rest).map .ok) twoTabletStore ∧
      home.extent.contains "n" = true := by
  obtain ⟨scanned, read, _, _, suffix, _⟩ := overlapping_in_order ⟨"t"⟩ (by decide)
    twoTabletStore built_twoTabletStore.filed (some "n")
  obtain ⟨passed, remaining, _, rfl, _, inhabited⟩ := suffix twoTablets holds_twoTablets
  obtain ⟨home, rest, rfl, inside⟩ := inhabited "n" rfl
  exact ⟨home, rest, read, inside⟩

end GuardedRows.Tablet
