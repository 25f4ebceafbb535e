import GuardedRows.Proofs.Tablet.Convergence
import GuardedRows.Proofs.Tablet.Creation

/-!
# Ranges that hold no key

A pass never asks whether its range holds a key. What an empty range covers holds the row the
range starts in, so one tablet at most is touched. It is touched unless it begins behind the
range, which depends on where the table happens to be split.
-/

set_option autoImplicit false

namespace GuardedRows

namespace RowRange

variable {range : RowRange} {extent : Tablet.Extent}

/-- A range holds no key exactly if its least key is behind its end. -/
theorem contains_eq_false_iff :
    (∀ key, range.contains key = false) ↔ range.afterEnd range.least = true := by
  constructor
  · intro empty
    rw [← Bool.not_eq_false]
    intro within
    have inside := (contains_iff range.least).mpr ⟨range.least.before_irrefl, within⟩
    exact Bool.noConfusion ((empty range.least).symm.trans inside)
  · intro past key
    rw [Bool.eq_false_iff]
    intro inside
    have within := ((contains_iff range.least).mp (contains_least inside)).2
    exact Bool.noConfusion (past.symm.trans within)

/-- What an empty range covers holds the row the range starts in. -/
theorem Covers.contains_row_least (covers : range.Covers extent)
    (empty : ∀ key, range.contains key = false) :
    extent.contains range.least.row = true := by
  simp only [Tablet.Extent.contains, Bool.and_eq_true, Option.all_eq_true, decide_eq_true_eq]
  refine ⟨fun previous behind => ?_, fun endRow last => covers.row_least_le last⟩
  rw [← String.not_le]
  intro startsBefore
  have inside := contains_followingRow startsBefore (covers.stop previous behind)
  exact Bool.noConfusion ((empty _).symm.trans inside)

end RowRange

namespace Tablet

/-- Just one tablet of a table holds a row. -/
theorem Chain.exists_filter_contains {table : TableId} {tablets : List Metadata}
    (chain : Chain table none tablets) (row : String) :
    ∃ home, tablets.filter (·.extent.contains row) = [home] := by
  have one := chain.countP_contains row
  rw [Option.all_none, if_pos rfl, List.countP_eq_length_filter] at one
  exact List.length_eq_one_iff.mp one

namespace AvailabilityChange

variable {change : AvailabilityChange} {catalog : Catalog} {config : Config} {store : Memory}
  {tablets : List Metadata} {home : Metadata}

/-- Over an empty range nothing is due but the tablet that holds the row the range starts in. -/
theorem mem_due_iff_of_empty (empty : ∀ key, change.range.contains key = false)
    (holder : tablets.filter (·.extent.contains change.range.least.row) = [home])
    {tablet : Metadata} :
    tablet ∈ change.due tablets ↔ tablet = home ∧ change.beginsPastEnd home = false ∧
      home.availability ≠ some change.availability := by
  have among : ∀ tablet, tablet ∈ tablets ∧
      tablet.extent.contains change.range.least.row = true ↔ tablet = home :=
    fun _ => List.mem_filter.symm.trans (holder ▸ List.mem_singleton)
  rw [mem_due_iff]
  constructor
  · rintro ⟨member, covers, differs⟩
    cases (among tablet).mp ⟨member, covers.contains_row_least empty⟩
    exact ⟨rfl, (covers_iff.mp covers).2, differs⟩
  · rintro ⟨rfl, begins, differs⟩
    obtain ⟨member, holds⟩ := (among tablet).mpr rfl
    refine ⟨member, covers_iff.mpr ⟨Metadata.reaches_iff.mpr ?_, begins⟩, differs⟩
    intro start bound endRow last
    simp only [Extent.contains, Bool.and_eq_true, Option.all_eq_true, decide_eq_true_eq] at holds
    have row : change.range.least.row = start := by
      rw [RowRange.row_least, show change.range.start.map Key.row = some start from bound,
        Option.getD_some]
    exact row ▸ holds.2 endRow last

/-- A pass over an empty range leaves the store as it is and is done exactly if the tablet that
holds the row the range starts in begins behind the range or has the target. Any other tablet
stays as it is. -/
theorem isReady_emptyRange (change : AvailabilityChange) (catalog : Catalog) (config : Config)
    (elapsed : Duration) (store : Memory) (tablets : List Metadata) (built : store.Built)
    (holds : Holds store change.table tablets)
    (online : catalog.tableState change.table = .online) (sound : config.flaw? = none)
    (empty : ∀ key, change.range.contains key = false) :
    ∃ home hint later,
      tablets.filter (·.extent.contains change.range.least.row) = [home] ∧
      change.isReady catalog config elapsed store = .ok hint later ∧
      (change.beginsPastEnd home = true ∨ home.availability = some change.availability →
        hint = 0 ∧ later = store) ∧
      (¬(change.beginsPastEnd home = true ∨ home.availability = some change.availability) →
        hint ≠ 0 ∨ later.rows ≠ store.rows) ∧
      ∀ row, row ≠ home.extent.metadataRow → later.read row = store.read row := by
  obtain ⟨home, holder⟩ := holds.chain.exists_filter_contains change.range.least.row
  obtain ⟨hint, ready, done, _⟩ := isReady_spec holds built.filed online sound elapsed
  refine ⟨home, hint, _, holder, ready, fun spared => ?_, fun exposed => ?_,
    fun row elsewhere => ?_⟩
  · have none : change.due tablets = [] := List.eq_nil_iff_forall_not_mem.mpr fun tablet due => by
      obtain ⟨_, begins, differs⟩ := (mem_due_iff_of_empty empty holder).mp due
      exact spared.elim (fun past => Bool.noConfusion (begins.symm.trans past)) differs
    exact ⟨done.mpr fun tablet due => by simp [none] at due, by rw [sent, none]; rfl⟩
  · obtain ⟨begins, differs⟩ := not_or.mp exposed
    have due : home ∈ change.due tablets :=
      (mem_due_iff_of_empty empty holder).mpr ⟨rfl, Bool.eq_false_iff.mpr begins, differs⟩
    by_cases landed : change.landsIn store tablets home = true
    · refine .inr fun same => ?_
      refine (cell?_changes_iff holds).mpr ⟨home, due, landed, rfl, rfl⟩ ?_
      simp only [Memory.cell?, Memory.read, same]
    · exact .inl fun zero => landed (done.mp zero home due)
  · refine Memory.read_submitAll_of_ne fun mutation sent same => elsewhere ?_
    obtain ⟨tablet, due, rfl⟩ := List.mem_map.mp sent
    obtain ⟨rfl, _⟩ := (mem_due_iff_of_empty empty holder).mp due
    exact same.symm

/-- The range runs backwards over the split row of a table, and the pass is idle. -/
theorem isReady_emptyRange_acrossSplit :
    let change : AvailabilityChange :=
      ⟨⟨"t"⟩, ⟨"space"⟩, .ofRows (some "p") true (some "b") true, .hosted⟩
    change.isReady (({} : Catalog).setTableState ⟨"t"⟩ .online) {} ⟨0⟩ twoTabletStore =
      .ok 0 twoTabletStore := by
  intro change
  obtain ⟨home, hint, later, holder, ready, idle, _⟩ :=
    isReady_emptyRange change (({} : Catalog).setTableState ⟨"t"⟩ .online) {} ⟨0⟩
      twoTabletStore twoTablets built_twoTabletStore holds_twoTablets (by decide) rfl
      (RowRange.contains_eq_false_iff.mpr (by decide))
  have split : twoTablets.filter (·.extent.contains change.range.least.row) =
      [⟨⟨⟨"t"⟩, none, some "m"⟩, some .unhosted, some splitOperation⟩] := by decide
  obtain rfl := List.singleton_inj.mp (split.symm.trans holder)
  obtain ⟨rfl, rfl⟩ := idle (.inl (by decide))
  exact ready

/-- The range runs backwards within the first tablet of a table, and the pass changes it. -/
theorem emptyRange_touched_withinTablet :
    let change : AvailabilityChange :=
      ⟨⟨"t"⟩, ⟨"space"⟩, .ofRows (some "g") true (some "b") true, .hosted⟩
    let pass : StoreStep Memory UInt64 :=
      change.isReady (({} : Catalog).setTableState ⟨"t"⟩ .online) {} ⟨0⟩
    Holds twoTabletStore change.table twoTablets ∧
      (∀ key, change.range.contains key = false) ∧
      pass.value? twoTabletStore = some 0 ∧
      twoTabletStore.cell? "t;m" availabilityColumn = some (Bytes.ofText "UNHOSTED") ∧
      (pass.after twoTabletStore).cell? "t;m" availabilityColumn =
        some (Bytes.ofText "HOSTED") := by
  intro change pass
  exact ⟨holds_twoTablets, RowRange.contains_eq_false_iff.mpr (by decide), by decide +kernel⟩

end AvailabilityChange

end Tablet

end GuardedRows
