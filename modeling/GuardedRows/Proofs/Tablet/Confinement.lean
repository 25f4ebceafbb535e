import GuardedRows.Proofs.Store.Backed
import GuardedRows.Proofs.Tablet.Claimable

/-!
# What a pass cannot touch

Whatever a store holds and however a pass ends, the pass writes the target's availability into
rows of its table that it read as tablets the range covers, and only where the row is open to a
claim. Nothing else changes, and no row comes or goes.
-/

set_option autoImplicit false

namespace GuardedRows.Tablet.AvailabilityChange

open StoreStep

variable {change : AvailabilityChange}

/-! ## What a pass sends -/

/-- The mutations of tablets that a pass finds in a store and that its range covers. -/
def Permits (change : AvailabilityChange) (store : Memory) (mutation : Mutation) : Prop :=
  ∃ record tablet, Found store change.table change.scanStart record tablet ∧
    change.range.Covers tablet.extent ∧ mutation = change.mutation tablet

section Sending

variable {σ : Type} [RowStore σ] {memory : σ → Memory} {allowed : Mutation → Prop}

theorem reads_backed (backed : Backed memory) : Reads (SentWithin memory allowed) where
  read row := (backed.read row).mono fun _ _ same => same.sentWithin
  scan range := (backed.scan range).mono fun _ _ same => same.sentWithin

theorem permits_of_mem_overlapping (backed : Backed memory) {store later : σ}
    (filed : (memory store).Filed) (named : separator ∉ change.table.text.toList)
    {tablets : List (Except Error Metadata)}
    (scanned : overlapping change.table change.scanStart store = .ok tablets later)
    {tablet : Metadata} (member : .ok tablet ∈ tablets)
    (within : change.beginsPastEnd tablet = false) :
    change.Permits (memory store) (change.mutation tablet) := by
  unfold overlapping at scanned
  cases result : (RowStore.scan (scanRange change.table change.scanStart) :
      StoreStep σ (List (Except Error Record))) store with
  | error failure between =>
      rw [bind_of_error result] at scanned
      cases scanned
  | ok rows between =>
      rw [bind_of_ok result] at scanned
      cases scanned
      obtain ⟨row, stored, reads⟩ := List.mem_map.mp member
      cases row with
      | error failure => cases reads
      | ok record =>
          have found := Found.of_mem_scan filed named (backed.scanned result record stored)
            (readRow_ok_iff.mp reads)
          exact ⟨record, tablet, found, covers_iff.mpr ⟨found.reached, within⟩, rfl⟩

/-- What a pass sends is within what the store permits as it was before the scan, whatever the
store is when it arrives. -/
theorem pass_leads (backed : Backed memory) {store : σ} (filed : (memory store).Filed)
    (named : separator ∉ change.table.text.toList) :
    Leads (SentWithin memory (change.Permits (memory store)))
      (change.pass : StoreStep σ (List Outcome)) store := by
  have reads : Reads (SentWithin memory (change.Permits (memory store))) := reads_backed backed
  unfold pass
  apply Leads.bind
  · apply Moves.leads
    exact .bind (reads.scan _) fun rows => .pure _
  · intro tablets later scanned
    apply Moves.leads
    apply Batch.run_moves reads (note_moves reads)
    apply visit_moves reads
    intro tablet member _ within
    exact backed.sends (permits_of_mem_overlapping backed filed named scanned member within)

theorem isReady_leads (backed : Backed memory) {store : σ} (filed : (memory store).Filed)
    (named : separator ∉ change.table.text.toList) (catalog : Catalog) (config : Config)
    (elapsed : Duration) :
    Leads (SentWithin memory (change.Permits (memory store)))
      (change.isReady catalog config elapsed : StoreStep σ UInt64) store := by
  unfold isReady
  dsimp only
  split
  · exact (Moves.throw _).leads store
  · exact .bind (pass_leads backed filed named) fun outcomes later _ => (Moves.pure _).leads later

end Sending

/-! ## What it comes to -/

/-- Rows in which a pass may write. -/
def Settable (change : AvailabilityChange) (store : Memory) (row : String) : Prop :=
  ∃ record tablet, store.read row = some record ∧ Metadata.ofRecord record = .ok tablet ∧
    tablet.extent.table = change.table ∧ Open record tablet.extent ∧
    change.range.Covers tablet.extent

/-- Between two states of a store nothing happened but what a pass may do. -/
structure Confined (change : AvailabilityChange) (before later : Memory) : Prop where
  rows : ∀ row, (later.read row).isSome = (before.read row).isSome
  cells : ∀ row column, later.cell? row column ≠ before.cell? row column →
    column = availabilityColumn ∧
      later.cell? row column = some (Bytes.ofText change.availability.text) ∧
      change.Settable before row

namespace Confined

variable {before between : Memory}

theorem refl (store : Memory) : change.Confined store store :=
  ⟨fun _ => rfl, fun _ _ differs => absurd rfl differs⟩

theorem cell?_eq (confined : change.Confined before between) {row : String} {column : Column}
    (other : column ≠ availabilityColumn) :
    between.cell? row column = before.cell? row column :=
  Classical.not_not.mp fun differs => other (confined.cells row column differs).1

/-- A tablet that a mutation lands on now was open to a claim from the start. -/
theorem settable (confined : change.Confined before between) {record : Record}
    {tablet : Metadata} (found : Found before change.table change.scanStart record tablet)
    (covers : change.range.Covers tablet.extent)
    (landed : between.lands (change.mutation tablet) = true) :
    change.Settable before tablet.extent.metadataRow := by
  have start := Condition.holds_equals.mp (Memory.holds_of_lands landed List.mem_cons_self)
  have unclaimed := Condition.holds_absent.mp
    (Memory.holds_of_lands landed (List.mem_cons_of_mem _ List.mem_cons_self))
  have cell : ∀ column, column ≠ availabilityColumn →
      between.cell? tablet.extent.metadataRow column = record.get? column := by
    intro column other
    rw [confined.cell?_eq other, Memory.cell?, found.stored, Option.bind_some]
  refine ⟨record, tablet, found.stored, found.reads, found.table, ⟨?_, ?_⟩, covers⟩
  · exact (cell previousRowColumn (by decide)).symm.trans start
  · exact (cell operationColumn (by decide)).symm.trans unclaimed

theorem read_submit_isSome (confined : change.Confined before between) {record : Record}
    {tablet : Metadata} (found : Found before change.table change.scanStart record tablet)
    (row : String) :
    ((between.submit (change.mutation tablet)).2.read row).isSome = (before.read row).isSome := by
  rw [← confined.rows, Memory.read_submit]
  split
  · next landed =>
      have stored : (between.read tablet.extent.metadataRow).isSome = true := by
        rw [confined.rows, found.stored]
        rfl
      obtain ⟨current, present⟩ := Option.isSome_iff_exists.mp stored
      rw [landed.1, row_mutation, present, applyTo_mutation]
      rfl
  · rfl

theorem submit (confined : change.Confined before between) {mutation : Mutation}
    (permitted : change.Permits before mutation) :
    change.Confined before (between.submit mutation).2 := by
  obtain ⟨record, tablet, found, covers, rfl⟩ := permitted
  refine ⟨confined.read_submit_isSome found, fun row column differs => ?_⟩
  rw [Memory.cell?_submit] at differs ⊢
  by_cases landed : row = tablet.extent.metadataRow ∧
      between.lands (change.mutation tablet) = true
  · rw [row_mutation, if_pos landed] at differs ⊢
    have put : (change.mutation tablet).writes =
        [.put availabilityColumn (Bytes.ofText change.availability.text)] := rfl
    simp only [put, List.foldl_cons, List.foldl_nil, Write.onCell] at differs ⊢
    by_cases same : availabilityColumn = column
    · rw [if_pos same]
      exact ⟨same.symm, rfl, landed.1 ▸ confined.settable found covers landed.2⟩
    · rw [if_neg same] at differs
      exact absurd (confined.cell?_eq (Ne.symm same)) differs
  · rw [row_mutation, if_neg landed] at differs ⊢
    exact confined.cells row column differs

end Confined

theorem confined_of_sent {before later : Memory}
    (sent : Memory.Sent (change.Permits before) before later) : change.Confined before later := by
  induction sent with
  | nothing => exact .refl before
  | more _ permitted ih => exact ih.submit permitted

/-- Whatever is in the rows of a store, whatever faults and failures wait, and whether or not the
pass ends in an error: all that a pass changes are availabilities, to its target, in rows that
read as tablets of its table that the range covers, and whose cells for the previous end row and
the operation are those of an unclaimed tablet. No row appears or disappears. -/
theorem isReady_confined (change : AvailabilityChange) (catalog : Catalog) (config : Config)
    (elapsed : Duration) (named : separator ∉ change.table.text.toList) :
    (∀ store : Memory, store.Filed →
      Leads change.Confined (change.isReady catalog config elapsed) store) ∧
    ∀ store : Failing Memory, store.inner.Filed →
      Leads (fun before later => change.Confined before.inner later.inner)
        (change.isReady catalog config elapsed) store := by
  constructor
  · intro store filed
    apply (isReady_leads backed_memory filed named catalog config elapsed).mono
    exact fun later => confined_of_sent
  · intro store filed
    apply (isReady_leads Failing.backed filed named catalog config elapsed).mono
    exact fun later => confined_of_sent

/-- Two tablets with a row between them that does not read. -/
def brokenStore : Memory :=
  (twoTabletStore.submit ⟨"t;p", [], [.put availabilityColumn [0xff]]⟩).2

/-- A pass that breaks off has changed the first tablet, which was open to it. -/
theorem isReady_confined_broken :
    let change : AvailabilityChange := ⟨⟨"t"⟩, ⟨"space"⟩, .all, .hosted⟩
    let pass : StoreStep Memory UInt64 :=
      change.isReady (({} : Catalog).setTableState ⟨"t"⟩ .online) {} ⟨0⟩
    pass.value? brokenStore = none ∧ change.Settable brokenStore "t;m" := by
  intro change pass
  have filed : brokenStore.Filed := built_twoTabletStore.filed.submit _
  obtain ⟨confines, _⟩ := isReady_confined change
    (({} : Catalog).setTableState ⟨"t"⟩ .online) {} ⟨0⟩ (by decide)
  have confined := (confines brokenStore filed).after
  have changed : (pass.after brokenStore).cell? "t;m" availabilityColumn ≠
      brokenStore.cell? "t;m" availabilityColumn := by
    decide +kernel
  exact ⟨by decide +kernel, (confined.cells "t;m" availabilityColumn changed).2.2⟩

end GuardedRows.Tablet.AvailabilityChange
