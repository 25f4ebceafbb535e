import GuardedRows.Proofs.Tablet.PassEffect

/-!
# A pass changes exactly what it should

On a store that hides nothing, a pass sets the availability of the unclaimed tablets that
share a key with the range and differ from the target, and touches no other cell.
-/

set_option autoImplicit false

namespace GuardedRows.Tablet.AvailabilityChange

variable {change : AvailabilityChange} {catalog : Catalog} {config : Config} {store : Memory}
  {tablets : List Metadata} {tablet : Metadata}

/-- In a table a range that holds any key covers the tablets that it shares a key with. -/
theorem covers_iff_meets (holds : Holds store change.table tablets) (member : tablet ∈ tablets)
    {key : Key} (inside : change.range.contains key = true) :
    change.range.Covers tablet.extent ↔ change.range.Meets tablet.extent :=
  ⟨fun covers => covers.meets (holds.chain.proper tablet member) inside, RowRange.Meets.covers⟩

private theorem landsIn_of_calm (holds : Holds store change.table tablets)
    (calm : store.faults = []) (due : tablet ∈ change.due tablets) :
    change.landsIn store tablets tablet = tablet.operation.isNone := by
  obtain ⟨fault, waiting, decided⟩ := landsIn_eq holds due
  cases fault with
  | none =>
      rw [decided]
      rfl
  | some fault => simpa [calm] using waiting fault rfl

/-- Without faults, a pass sets the availability of the unclaimed tablets that share a key with
the range and differ from the target, changes no other cell and is done unless one of the
tablets is claimed. -/
theorem isReady_changes_exactly (change : AvailabilityChange) (catalog : Catalog)
    (config : Config) (elapsed : Duration) (store : Memory) (tablets : List Metadata)
    (built : store.Built) (calm : store.faults = [])
    (holds : Holds store change.table tablets)
    (online : catalog.tableState change.table = .online) (sound : config.flaw? = none)
    (inhabited : ∃ key, change.range.contains key = true) :
    ∃ hint after, change.isReady catalog config elapsed store = .ok hint after ∧
      (∀ row column, after.cell? row column ≠ store.cell? row column ↔
        ∃ tablet ∈ tablets, row = tablet.extent.metadataRow ∧ column = availabilityColumn ∧
          change.range.Meets tablet.extent ∧ tablet.operation = none ∧
          tablet.availability ≠ some change.availability) ∧
      (∀ row column, after.cell? row column ≠ store.cell? row column →
        after.cell? row column = some (Bytes.ofText change.availability.text)) ∧
      (hint = 0 ↔ ¬∃ tablet ∈ tablets, change.range.Meets tablet.extent ∧
        tablet.operation ≠ none ∧ tablet.availability ≠ some change.availability) ∧
      (hint ≠ 0 → config.minWaitHint ≤ hint ∧ hint ≤ config.maxWaitHint) := by
  obtain ⟨key, inside⟩ := inhabited
  have isDue : ∀ tablet ∈ tablets, tablet ∈ change.due tablets ↔
      change.range.Meets tablet.extent ∧ tablet.availability ≠ some change.availability := by
    intro tablet member
    rw [mem_due_iff, covers_iff_meets holds member inside]
    exact and_iff_right member
  obtain ⟨hint, ready, done, bounds⟩ := isReady_spec holds built.filed online sound elapsed
  refine ⟨hint, _, ready, ?_, fun row column => cell?_of_changes holds, ?_, bounds⟩
  · intro row column
    rw [cell?_changes_iff holds]
    constructor
    · rintro ⟨tablet, due, landed, same⟩
      have member := (mem_due_iff.mp due).1
      rw [landsIn_of_calm holds calm due, Option.isNone_iff_eq_none] at landed
      obtain ⟨meets, differs⟩ := (isDue tablet member).mp due
      exact ⟨tablet, member, same.1, same.2, meets, landed, differs⟩
    · rintro ⟨tablet, member, row, column, meets, unclaimed, differs⟩
      have due := (isDue tablet member).mpr ⟨meets, differs⟩
      refine ⟨tablet, due, ?_, row, column⟩
      rw [landsIn_of_calm holds calm due, unclaimed]
      rfl
  · rw [done]
    constructor
    · rintro landed ⟨tablet, member, meets, claimed, differs⟩
      have due := (isDue tablet member).mpr ⟨meets, differs⟩
      have unclaimed := landsIn_of_calm holds calm due ▸ landed tablet due
      exact claimed (Option.isNone_iff_eq_none.mp unclaimed)
    · intro none tablet due
      have member := (mem_due_iff.mp due).1
      obtain ⟨meets, differs⟩ := (isDue tablet member).mp due
      rw [landsIn_of_calm holds calm due, Option.isNone_iff_eq_none]
      exact Classical.not_not.mp fun claimed =>
        none ⟨tablet, member, meets, claimed, differs⟩

theorem isReady_changes_exactly_two :
    let change : AvailabilityChange := ⟨⟨"t"⟩, ⟨"space"⟩, .all, .hosted⟩
    ∃ hint after, change.isReady (({} : Catalog).setTableState ⟨"t"⟩ .online) {} ⟨0⟩
        twoTabletStore = .ok hint after ∧ hint ≠ 0 ∧
      after.cell? "t;m" availabilityColumn = some (Bytes.ofText "HOSTED") ∧
      after.cell? "t<" availabilityColumn = some (Bytes.ofText "UNHOSTED") := by
  intro change
  have inside : change.range.contains (.firstOf "a") = true := by decide
  obtain ⟨hint, after, ready, changes, target, done, _⟩ :=
    isReady_changes_exactly change (({} : Catalog).setTableState ⟨"t"⟩ .online) {} ⟨0⟩
      twoTabletStore twoTablets built_twoTabletStore rfl holds_twoTablets (by decide) rfl
      ⟨.firstOf "a", inside⟩
  refine ⟨hint, after, ready, ?_, ?_, ?_⟩
  · rw [ne_eq, done, Classical.not_not]
    refine ⟨_, List.mem_cons_of_mem _ List.mem_cons_self, ⟨.firstOf "z", ?_⟩, ?_, ?_⟩ <;> decide
  · refine target _ _ ((changes _ _).mpr ⟨_, List.mem_cons_self, ?_, rfl, ⟨_, inside, ?_⟩, ?_⟩) <;>
      decide
  · have same : after.cell? "t<" availabilityColumn =
        twoTabletStore.cell? "t<" availabilityColumn := Classical.not_not.mp fun differs => by
      obtain ⟨tablet, member, row, _, _, unclaimed, _⟩ := (changes _ _).mp differs
      simp only [twoTablets, List.mem_cons, List.not_mem_nil, or_false] at member
      rcases member with rfl | rfl
      · exact absurd row (by decide)
      · cases unclaimed
    rw [same]
    decide

end GuardedRows.Tablet.AvailabilityChange
