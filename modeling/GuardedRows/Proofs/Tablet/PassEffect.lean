import GuardedRows.Config
import GuardedRows.Proofs.Tablet.Pass

/-!
# What a pass leaves behind

The tablets a pass submits are those the range covers that do not have the target. Each of
them ends up with the target if its mutation landed and as it was if not, and nothing else
in the store changes.
-/

set_option autoImplicit false

namespace GuardedRows.Tablet.AvailabilityChange

variable {change : AvailabilityChange} {store : Memory} {tablets : List Metadata}
  {tablet : Metadata}

/-! ## The tablets that are submitted -/

theorem covers_iff :
    change.range.Covers tablet.extent ↔
      tablet.reaches change.scanStart = true ∧ change.beginsPastEnd tablet = false := by
  have start : tablet.reaches change.scanStart = true ↔
      ∀ start ∈ change.range.start, ∀ endRow ∈ tablet.extent.endRow, start.row ≤ endRow := by
    simp [Metadata.reaches, scanStart, Option.all_eq_true]
  have stop : change.beginsPastEnd tablet = false ↔
      ∀ previous ∈ tablet.extent.previousEndRow,
        change.range.afterEnd (Key.firstOf previous).followingRow = false := by
    simp [beginsPastEnd, Option.any_eq_false]
  rw [start, stop]
  constructor
  · intro covers
    exact ⟨covers.start, covers.stop⟩
  · rintro ⟨reached, within⟩
    exact ⟨reached, within⟩

theorem mem_due_iff :
    tablet ∈ change.due tablets ↔
      tablet ∈ tablets ∧ change.range.Covers tablet.extent ∧
        tablet.availability ≠ some change.availability := by
  simp only [due, submits, List.mem_filter, Bool.and_eq_true, Bool.not_eq_true', isDone,
    decide_eq_false_iff_not, covers_iff, and_assoc]

theorem distinct_sent (holds : Holds store change.table tablets) :
    (change.sent tablets).Pairwise fun left right => left.row ≠ right.row :=
  List.pairwise_map.mpr ((holds.chain.rows_ascend.filter _).imp Std.ne_of_lt)

/-! ## What becomes of them -/

def landsIn (change : AvailabilityChange) (store : Memory) (tablets : List Metadata)
    (tablet : Metadata) : Bool :=
  decide ((change.mutation tablet, true) ∈ store.verdicts (change.sent tablets))

def after (change : AvailabilityChange) (store : Memory) (tablets : List Metadata) :
    List Metadata :=
  tablets.map fun tablet => change.changed (change.landsIn store tablets tablet) tablet

section Holds

variable (holds : Holds store change.table tablets)

include holds

theorem mem_verdicts (due : tablet ∈ change.due tablets) :
    (change.mutation tablet, change.landsIn store tablets tablet) ∈
      store.verdicts (change.sent tablets) := by
  obtain ⟨landed, member⟩ := Memory.exists_mem_verdicts store
    (List.mem_map_of_mem (f := change.mutation) due)
  have decided : change.landsIn store tablets tablet = landed := by
    cases landed with
    | true => exact decide_eq_true member
    | false =>
        exact decide_eq_false fun landed =>
          Bool.noConfusion (Memory.verdicts_unique (distinct_sent holds) landed member)
  exact decided ▸ member

theorem due_of_landsIn (member : tablet ∈ tablets)
    (landed : change.landsIn store tablets tablet = true) : tablet ∈ change.due tablets := by
  have sent := Memory.mem_of_mem_verdicts (of_decide_eq_true landed)
  obtain ⟨other, due, same⟩ := List.mem_map.mp sent
  have rows : other.extent.metadataRow = tablet.extent.metadataRow :=
    congrArg Mutation.row same
  exact holds.chain.eq_of_row_eq (List.mem_filter.mp due).1 member rows ▸ due

/-- A mutation lands if no operation claims its tablet, unless it meets a fault that drops
it. -/
theorem landsIn_eq (due : tablet ∈ change.due tablets) :
    ∃ fault, (∀ met ∈ fault, met ∈ store.faults.take (change.due tablets).length) ∧
      change.landsIn store tablets tablet =
        (fault != some .dropped && tablet.operation.isNone) := by
  obtain ⟨record, found, describes⟩ := holds.recorded tablet (List.mem_filter.mp due).1
  obtain ⟨fault, waiting, decided⟩ :=
    Memory.landed_iff (distinct_sent holds) (mem_verdicts holds due)
  refine ⟨fault, by simpa [sent] using waiting, ?_⟩
  rw [decided, row_mutation, Option.mem_def.mp found, conditionsHold_mutation describes]

theorem all_landed_iff :
    (store.verdicts (change.sent tablets)).all Prod.snd = true ↔
      ∀ tablet ∈ change.due tablets, change.landsIn store tablets tablet = true := by
  rw [List.all_eq_true]
  constructor
  · intro all tablet due
    exact all _ (mem_verdicts holds due)
  · rintro all ⟨mutation, landed⟩ member
    obtain ⟨tablet, due, rfl⟩ := List.mem_map.mp (Memory.mem_of_mem_verdicts member)
    have same := Memory.verdicts_unique (distinct_sent holds) member (mem_verdicts holds due)
    exact same.trans (all tablet due)

/-- The answer is zero if every mutation landed and otherwise a wait within bounds. -/
theorem isReady_spec {catalog : Catalog} {config : Config} (filed : store.Filed)
    (online : catalog.tableState change.table = .online) (sound : config.flaw? = none)
    (elapsed : Duration) :
    ∃ hint, change.isReady catalog config elapsed store =
        .ok hint (store.submitAll (change.sent tablets)) ∧
      (hint = 0 ↔ ∀ tablet ∈ change.due tablets, change.landsIn store tablets tablet = true) ∧
      (hint ≠ 0 → config.minWaitHint ≤ hint ∧ hint ≤ config.maxWaitHint) := by
  obtain ⟨least, greatest, nonzero⟩ := Config.waitHint_bounds sound elapsed
  refine ⟨_, isReady_eq online holds filed config elapsed, ?_⟩
  rw [← all_landed_iff holds]
  cases (store.verdicts (change.sent tablets)).all Prod.snd with
  | true => simp
  | false => simp [least, greatest, nonzero]

theorem read_submitAll_sent (member : tablet ∈ tablets) :
    (store.submitAll (change.sent tablets)).read tablet.extent.metadataRow =
      if change.landsIn store tablets tablet then
        (store.read tablet.extent.metadataRow).map
          (·.put availabilityColumn (Bytes.ofText change.availability.text))
      else store.read tablet.extent.metadataRow := by
  by_cases due : tablet ∈ change.due tablets
  · obtain ⟨record, found, _⟩ := holds.recorded tablet member
    have read := Memory.read_submitAll (distinct_sent holds) (mem_verdicts holds due)
    rw [row_mutation, Option.mem_def.mp found, applyTo_mutation] at read
    rw [read, Option.mem_def.mp found, Option.map_some]
  · have missed : change.landsIn store tablets tablet = false :=
      Bool.eq_false_iff.mpr fun landed => due (due_of_landsIn holds member landed)
    rw [missed, if_neg Bool.false_ne_true]
    refine Memory.read_submitAll_of_ne fun mutation sent same => due ?_
    obtain ⟨other, found, rfl⟩ := List.mem_map.mp sent
    exact holds.chain.eq_of_row_eq (List.mem_filter.mp found).1 member same ▸ found

theorem cell?_submitAll_sent (member : tablet ∈ tablets) (column : Column) :
    (store.submitAll (change.sent tablets)).cell? tablet.extent.metadataRow column =
      if change.landsIn store tablets tablet = true ∧ column = availabilityColumn then
        some (Bytes.ofText change.availability.text)
      else store.cell? tablet.extent.metadataRow column := by
  obtain ⟨record, found, _⟩ := holds.recorded tablet member
  simp only [Memory.cell?, read_submitAll_sent holds member, Option.mem_def.mp found]
  cases change.landsIn store tablets tablet with
  | false => simp
  | true => simp [Record.get?_put, eq_comm]

omit holds in
theorem read_submitAll_sent_of_ne {row : String}
    (elsewhere : ∀ tablet ∈ tablets, tablet.extent.metadataRow ≠ row) :
    (store.submitAll (change.sent tablets)).read row = store.read row := by
  refine Memory.read_submitAll_of_ne fun mutation sent => ?_
  obtain ⟨tablet, due, rfl⟩ := List.mem_map.mp sent
  exact elsewhere tablet (List.mem_filter.mp due).1

private theorem cell?_ne_target (member : tablet ∈ tablets)
    (differs : tablet.availability ≠ some change.availability) :
    store.cell? tablet.extent.metadataRow availabilityColumn ≠
      some (Bytes.ofText change.availability.text) := by
  obtain ⟨record, found, describes⟩ := holds.recorded tablet member
  intro target
  simp only [Memory.cell?, Option.mem_def.mp found, Option.bind_some] at target
  have told := describes.availability
  rw [target] at told
  cases availability : tablet.availability with
  | none =>
      rw [availability] at told
      cases told
  | some current =>
      rw [availability] at told
      obtain ⟨text, same, parsed⟩ := told
      cases Bytes.ofText_injective (Option.some.inj same)
      rw [Availability.parse_text] at parsed
      cases parsed
      exact differs availability

theorem cell?_changes_iff {row : String} {column : Column} :
    (store.submitAll (change.sent tablets)).cell? row column ≠ store.cell? row column ↔
      ∃ tablet ∈ change.due tablets, change.landsIn store tablets tablet = true ∧
        row = tablet.extent.metadataRow ∧ column = availabilityColumn := by
  constructor
  · intro changes
    by_cases known : ∃ tablet ∈ tablets, tablet.extent.metadataRow = row
    · obtain ⟨tablet, member, rfl⟩ := known
      rw [cell?_submitAll_sent holds member] at changes
      by_cases landed : change.landsIn store tablets tablet = true ∧ column = availabilityColumn
      · exact ⟨tablet, due_of_landsIn holds member landed.1, landed.1, rfl, landed.2⟩
      · rw [if_neg landed] at changes
        exact absurd rfl changes
    · refine absurd ?_ changes
      rw [Memory.cell?, read_submitAll_sent_of_ne fun tablet member same =>
        known ⟨tablet, member, same⟩]
      rfl
  · rintro ⟨tablet, due, landed, rfl, rfl⟩
    obtain ⟨member, _, differs⟩ := mem_due_iff.mp due
    rw [cell?_submitAll_sent holds member, if_pos ⟨landed, rfl⟩]
    exact (cell?_ne_target holds member differs).symm

theorem cell?_of_changes {row : String} {column : Column}
    (changes : (store.submitAll (change.sent tablets)).cell? row column ≠
      store.cell? row column) :
    (store.submitAll (change.sent tablets)).cell? row column =
      some (Bytes.ofText change.availability.text) := by
  obtain ⟨tablet, due, landed, rfl, same⟩ := (cell?_changes_iff holds).mp changes
  rw [cell?_submitAll_sent holds (mem_due_iff.mp due).1, if_pos ⟨landed, same⟩]

theorem holds_after :
    Holds (store.submitAll (change.sent tablets)) change.table (change.after store tablets)
    where
  named := holds.named
  chain := holds.chain.map fun tablet => extent_changed change _ tablet
  recorded := by
    intro tablet later
    obtain ⟨before, member, rfl⟩ := List.mem_map.mp later
    obtain ⟨record, found, describes⟩ := holds.recorded before member
    unfold Keeps
    rw [extent_changed, read_submitAll_sent holds member, Option.mem_def.mp found]
    cases change.landsIn store tablets before with
    | false => exact ⟨record, rfl, describes⟩
    | true => exact ⟨_, rfl, describes_put describes⟩
  complete := by
    intro row endRow stored parsed
    have present : (store.read row).isSome = true := by
      by_cases known : ∃ tablet ∈ tablets, tablet.extent.metadataRow = row
      · obtain ⟨tablet, member, rfl⟩ := known
        obtain ⟨record, found, _⟩ := holds.recorded tablet member
        rw [Option.mem_def.mp found]
        rfl
      · rw [read_submitAll_sent_of_ne fun tablet member same => known ⟨tablet, member, same⟩]
          at stored
        exact stored
    obtain ⟨tablet, member, same⟩ := holds.complete row endRow present parsed
    exact ⟨_, List.mem_map_of_mem member, by rw [extent_changed]; exact same⟩

end Holds

end GuardedRows.Tablet.AvailabilityChange
