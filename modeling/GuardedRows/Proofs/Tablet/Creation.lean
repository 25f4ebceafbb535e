import GuardedRows.Proofs.Store.RowIndependence
import GuardedRows.Proofs.Store.Settle
import GuardedRows.Proofs.Tablet.Chain

/-!
# Tables as they are created

Where no row of a table is stored and nothing is hidden, creating the table records a tablet for
each distinct split row and a last one behind them. The tablets form a chain, and a chain that
begins with no previous end row holds every row in exactly one tablet.
-/

set_option autoImplicit false

namespace GuardedRows.Tablet

/-! ## Extents -/

theorem distinctRows_ascend (rows : List String) : (distinctRows rows).Pairwise (· < ·) :=
  (SortedMap.keys_ascend _).imp Text.compare_eq_lt_iff.mp

theorem mem_distinctRows_iff {rows : List String} {row : String} :
    row ∈ distinctRows rows ↔ row ∈ rows := by
  rw [distinctRows, SortedMap.mem_keys_iff, SortedMap.isSome_get?_ofList, List.map_map]
  simp

theorem endRows_extentsFrom (table : TableId) (previous : Option String) (ends : List String) :
    (extentsFrom table previous ends).map Extent.endRow = ends.map some ++ [none] := by
  induction ends generalizing previous with
  | nil => rfl
  | cons endRow rest ih => simp [extentsFrom, ih]

/-- A tablet as it is recorded first. -/
def asCreated (availability : Availability) (extent : Extent) : Metadata :=
  ⟨extent, some availability, none⟩

theorem chain_extentsFrom (table : TableId) (availability : Availability)
    {previous : Option String} {ends : List String} (ascend : ends.Pairwise (· < ·))
    (behind : ∀ row ∈ previous, ∀ endRow ∈ ends, row < endRow) :
    Chain table previous ((extentsFrom table previous ends).map (asCreated availability)) := by
  induction ends generalizing previous with
  | nil => exact .last rfl
  | cons endRow rest ih =>
      obtain ⟨first, ascend⟩ := List.pairwise_cons.mp ascend
      refine .next rfl (fun row before => behind row before endRow List.mem_cons_self) ?_
      refine ih ascend fun row same later member => ?_
      cases Option.mem_some.mp same
      exact first later member

theorem Chain.countP_contains {table : TableId} {previous : Option String}
    {tablets : List Metadata} (chain : Chain table previous tablets) (row : String) :
    tablets.countP (·.extent.contains row) = if previous.all (· < row) then 1 else 0 := by
  induction chain with
  | last extent => simp [extent, Extent.contains]
  | @next previous endRow tablet rest extent order _ ih =>
      rw [List.countP_cons, ih, extent]
      by_cases ended : endRow < row
      · have passed : ¬ row ≤ endRow := String.not_le.mpr ended
        have behind : previous.all (· < row) = true := by
          rw [Option.all_eq_true]
          intro begin begins
          exact decide_eq_true (Std.lt_trans (order begin begins) ended)
        simp only [Extent.contains, Option.all_some, ended, passed, behind, decide_true,
          decide_false, Bool.and_false, Bool.false_eq_true, ↓reduceIte]
      · have within : row ≤ endRow := String.not_lt.mp ended
        simp only [Extent.contains, Option.all_some, ended, within, decide_true, decide_false,
          Bool.and_true, Bool.false_eq_true, ↓reduceIte, Nat.zero_add]

/-! ## Records -/

variable {store : Memory} {availability : Availability} {extents : List Extent}

theorem lands_creation {extent : Extent} (calm : store.faults = [])
    (absent : store.read extent.metadataRow = none) :
    store.lands (creation availability extent) = true := by
  simp [Memory.lands, calm, creation, absent, Mutation.conditionsHold, Condition.holds]

theorem createEach_eq (calm : store.faults = [])
    (distinct : extents.Pairwise fun left right => left.metadataRow ≠ right.metadataRow)
    (absent : ∀ extent ∈ extents, store.read extent.metadataRow = none) :
    createEach availability extents store =
      .ok () (store.submitAll (extents.map (creation availability))) := by
  induction extents generalizing store with
  | nil => rfl
  | cons extent rest ih =>
      obtain ⟨apart, distinct⟩ := List.pairwise_cons.mp distinct
      have landed : store.lands (creation availability extent) = true :=
        lands_creation calm (absent extent List.mem_cons_self)
      have sent : (creation availability extent).enforce store =
          .ok () (store.submit (creation availability extent)).2 := by
        rw [Mutation.enforce_eq rfl, Memory.outcome_submit, if_pos calm, if_pos landed,
          if_pos rfl]
      unfold createEach
      rw [StoreStep.bind_of_ok sent]
      refine ih (Memory.calm_submit calm _) distinct fun other member => ?_
      rw [Memory.read_submit, if_neg fun both => apart other member both.1.symm]
      exact absent other (List.mem_cons_of_mem extent member)

theorem read_created {extent : Extent} (calm : store.faults = [])
    (distinct : extents.Pairwise fun left right => left.metadataRow ≠ right.metadataRow)
    (absent : ∀ extent ∈ extents, store.read extent.metadataRow = none)
    (member : extent ∈ extents) :
    (store.submitAll (extents.map (creation availability))).read extent.metadataRow =
      (creation availability extent).applyTo none := by
  have apart : (extents.map (creation availability)).Pairwise
      fun left right => left.row ≠ right.row := List.pairwise_map.mpr distinct
  obtain ⟨landed, answered⟩ := Memory.exists_mem_verdicts store
    (List.mem_map_of_mem (f := creation availability) member)
  obtain ⟨fault, waiting, decided⟩ := Memory.landed_iff apart answered
  have free : fault = none := by
    cases fault with
    | none => rfl
    | some fault => simpa [calm] using waiting fault rfl
  have holds : (creation availability extent).conditionsHold none = true := rfl
  have row : (creation availability extent).row = extent.metadataRow := rfl
  have read := Memory.read_submitAll apart answered
  rw [row, absent extent member] at read decided
  rw [read, decided, free, holds]
  rfl

theorem describes_creation (availability : Availability) (extent : Extent) :
    ∃ record ∈ (creation availability extent).applyTo none,
      Describes record (asCreated availability extent) := by
  have kept : ((creation availability extent).written none).isEmpty = false := by
    refine Bool.eq_false_iff.mpr fun empty => ?_
    have cell := Record.get?_of_isEmpty empty availabilityColumn
    rw [Mutation.get?_written] at cell
    simp [creation, Write.onCell] at cell
  refine ⟨(creation availability extent).written none, ?_, ?_, ?_, ?_⟩
  · simp [Mutation.applyTo, kept]
  · rw [Mutation.get?_written]
    simp [creation, Write.onCell, asCreated, show availabilityColumn ≠ previousRowColumn by decide]
  · refine ⟨availability.text, ?_, Availability.parse_text availability⟩
    rw [Mutation.get?_written]
    simp [creation, Write.onCell]
  · show ((creation availability extent).written none).get? operationColumn = none
    rw [Mutation.get?_written]
    simp [creation, Write.onCell, show availabilityColumn ≠ operationColumn by decide,
      show previousRowColumn ≠ operationColumn by decide]

/-- The store after the tablets of a new table were recorded. -/
def withTable (store : Memory) (table : TableId) (splits : List String)
    (availability : Availability) : Memory :=
  store.submitAll ((extentsAt table splits).map (creation availability))

/-- A new table is held in the tablets that its split rows leave. -/
theorem createTablets_holds {table : TableId} (named : separator ∉ table.text.toList)
    (splits : List String) (availability : Availability) (calm : store.faults = [])
    (absent : ∀ endRow, store.read (metadataRow table endRow) = none) :
    createTablets table splits availability store =
        .ok (extentsAt table splits) (withTable store table splits availability) ∧
      Holds (withTable store table splits availability) table
        ((extentsAt table splits).map (asCreated availability)) := by
  have chain : Chain table none ((extentsAt table splits).map (asCreated availability)) :=
    chain_extentsFrom table availability (distinctRows_ascend splits) (by simp)
  have ascend := List.pairwise_map.mp chain.rows_ascend
  have distinct : (extentsAt table splits).Pairwise fun left right =>
      left.metadataRow ≠ right.metadataRow := ascend.imp Std.ne_of_lt
  have vacant : ∀ extent ∈ extentsAt table splits, store.read extent.metadataRow = none := by
    intro extent member
    have own : extent.table = table := chain.table_eq _ (List.mem_map_of_mem member)
    rw [Extent.metadataRow, own]
    exact absent extent.endRow
  refine ⟨?_, named, chain, ?_, ?_⟩
  · unfold createTablets
    rw [StoreStep.bind_of_ok (createEach_eq calm distinct vacant)]
    rfl
  · intro tablet recorded
    obtain ⟨extent, member, rfl⟩ := List.mem_map.mp recorded
    obtain ⟨record, made, describes⟩ := describes_creation availability extent
    refine ⟨record, ?_, describes⟩
    change record ∈ (store.submitAll _).read extent.metadataRow
    rw [read_created calm distinct vacant member]
    exact made
  · intro row endRow stored parsed
    refine Classical.byContradiction fun foreign => ?_
    have elsewhere : ∀ mutation ∈ (extentsAt table splits).map (creation availability),
        mutation.row ≠ row := by
      intro mutation sent same
      obtain ⟨extent, member, rfl⟩ := List.mem_map.mp sent
      exact foreign ⟨_, List.mem_map_of_mem member, same⟩
    rw [withTable, Memory.read_submitAll_of_ne elsewhere, (parseMetadataRow_eq_ok_iff.mp parsed).2,
      absent] at stored
    cases stored

end GuardedRows.Tablet
