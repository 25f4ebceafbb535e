import GuardedRows.Proofs.Mutation.Cells
import GuardedRows.Store.Memory

/-!
# What a submission does to a store in memory

A mutation lands if its conditions hold and no fault drops it. A mutation that lands replaces
its row, any other changes no row; either way one fault is used up, and the outcome is told
only if there was none.
-/

set_option autoImplicit false

namespace GuardedRows

namespace Memory

/-! ## Rows after a submission -/

@[simp] theorem read_setRow (store : Memory) (row other : String) (state : Option Record) :
    (store.setRow row state).read other = if other = row then state else store.read other := by
  by_cases same : other = row
  · subst same
    cases state <;> simp [setRow, read]
  · cases state with
    | none => simp [setRow, read, same, SortedMap.get?_erase_of_ne same]
    | some record => simp [setRow, read, same, SortedMap.get?_insert_of_ne same]

def cell? (store : Memory) (row : String) (column : Column) : Option Bytes :=
  (store.read row).bind (·.get? column)

def lands (store : Memory) (mutation : Mutation) : Bool :=
  store.faults.head? != some .dropped && mutation.conditionsHold (store.read mutation.row)

theorem holds_of_lands {store : Memory} {mutation : Mutation} {condition : Condition}
    (lands : store.lands mutation = true) (member : condition ∈ mutation.conditions) :
    condition.holds (store.read mutation.row) = true := by
  simp only [Memory.lands, Bool.and_eq_true] at lands
  exact List.all_eq_true.mp lands.2 condition member

theorem submit_of_lands {store : Memory} {mutation : Mutation}
    (lands : store.lands mutation = true) :
    store.submit mutation =
      (if store.faults = [] then .accepted else .unknown,
        { store.setRow mutation.row (mutation.applyTo (store.read mutation.row)) with
          faults := store.faults.tail
          accepted := store.accepted + 1 }) := by
  obtain ⟨rows, faults, accepted, rejected⟩ := store
  simp only [Memory.lands, Bool.and_eq_true, bne_iff_ne, ne_eq] at lands
  obtain ⟨kept, holds⟩ := lands
  cases faults with
  | nil =>
      simp only [read] at holds
      cases row : mutation.applyTo (rows.get? mutation.row) <;>
        simp [submit, apply, read, holds, setRow, row]
  | cons fault rest =>
      cases fault with
      | dropped => simp at kept
      | applied =>
          simp only [read] at holds
          cases row : mutation.applyTo (rows.get? mutation.row) <;>
            simp [submit, apply, read, holds, setRow, row]

theorem submit_of_not_lands {store : Memory} {mutation : Mutation}
    (misses : store.lands mutation = false) :
    store.submit mutation =
      (if store.faults = [] then .rejected else .unknown,
        { store with
          faults := store.faults.tail
          rejected := store.rejected +
            if store.faults.head? = some .dropped then 0 else 1 }) := by
  obtain ⟨rows, faults, accepted, rejected⟩ := store
  cases faults with
  | nil =>
      have fails : mutation.conditionsHold (rows.get? mutation.row) = false := by
        simpa [lands, read] using misses
      simp [submit, apply, read, fails]
  | cons fault rest =>
      cases fault with
      | dropped => rfl
      | applied =>
          have fails : mutation.conditionsHold (rows.get? mutation.row) = false := by
            simpa [lands, read] using misses
          simp [submit, apply, read, fails]

@[simp] theorem faults_submit (store : Memory) (mutation : Mutation) :
    (store.submit mutation).2.faults = store.faults.tail := by
  cases lands : store.lands mutation with
  | true => rw [submit_of_lands lands]
  | false => rw [submit_of_not_lands lands]

theorem outcome_submit (store : Memory) (mutation : Mutation) :
    (store.submit mutation).1 =
      if store.faults = [] then
        if store.lands mutation then .accepted else .rejected
      else .unknown := by
  cases lands : store.lands mutation with
  | true => simp [submit_of_lands lands]
  | false => simp [submit_of_not_lands lands]

theorem lands_of_accepted {store : Memory} {mutation : Mutation}
    (accepted : (store.submit mutation).1 = .accepted) : store.lands mutation = true := by
  rw [outcome_submit] at accepted
  cases lands : store.lands mutation with
  | true => rfl
  | false =>
      rw [lands] at accepted
      split at accepted <;> cases accepted

theorem read_submit (store : Memory) (mutation : Mutation) (row : String) :
    (store.submit mutation).2.read row =
      if row = mutation.row ∧ store.lands mutation = true then
        mutation.applyTo (store.read mutation.row)
      else store.read row := by
  cases lands : store.lands mutation with
  | true =>
      rw [submit_of_lands lands]
      have same := store.read_setRow mutation.row row (mutation.applyTo (store.read mutation.row))
      simpa [read] using same
  | false => simp [read, submit_of_not_lands lands]

theorem rows_submit (store : Memory) (mutation : Mutation) :
    (store.submit mutation).2.rows =
      if store.lands mutation = true then
        (store.setRow mutation.row (mutation.applyTo (store.read mutation.row))).rows
      else store.rows := by
  cases lands : store.lands mutation with
  | true => simp [submit_of_lands lands]
  | false => simp [submit_of_not_lands lands]

theorem rows_of_missed {store : Memory} {mutation : Mutation}
    (missed : store.lands mutation = false) :
    (store.submit mutation).2.rows = store.rows := by
  rw [rows_submit, missed, if_neg Bool.false_ne_true]

theorem read_of_missed {store : Memory} {mutation : Mutation}
    (missed : store.lands mutation = false) (row : String) :
    (store.submit mutation).2.read row = store.read row := by
  rw [read, rows_of_missed missed, read]

theorem eq_or_isSome_of_submit {store : Memory} {mutation : Mutation} {row : String}
    (stored : ((store.submit mutation).2.read row).isSome = true) :
    row = mutation.row ∨ (store.read row).isSome = true := by
  by_cases same : row = mutation.row
  · exact .inl same
  · rw [read_submit, if_neg fun both => same both.1] at stored
    exact .inr stored

theorem cell?_submit (store : Memory) (mutation : Mutation) (row : String) (column : Column) :
    (store.submit mutation).2.cell? row column =
      if row = mutation.row ∧ store.lands mutation = true then
        mutation.writes.foldl (Write.onCell column) (store.cell? row column)
      else store.cell? row column := by
  unfold cell?
  rw [read_submit]
  split
  · next landed => rw [Mutation.get?_applyTo, landed.1]
  · rfl

theorem cell?_of_missed {store : Memory} {mutation : Mutation}
    (missed : store.lands mutation = false) (row : String) (column : Column) :
    (store.submit mutation).2.cell? row column = store.cell? row column := by
  rw [cell?, read_of_missed missed, cell?]

/-! ## Stores that are made by submissions -/

structure Filed (store : Memory) : Prop where
  row : ∀ row, ∀ record ∈ store.read row, record.row = row
  cell : ∀ row, ∀ record ∈ store.read row, record.isEmpty = false

theorem Filed.empty : Filed .empty := by
  constructor <;> intro row record found <;> cases found

theorem Filed.addFault {store : Memory} (filed : store.Filed) (fault : Fault) :
    (store.addFault fault).Filed :=
  ⟨filed.row, filed.cell⟩

theorem Filed.submit {store : Memory} (filed : store.Filed) (mutation : Mutation) :
    (store.submit mutation).2.Filed := by
  have applied : ∀ record ∈ mutation.applyTo (store.read mutation.row),
      record.row = mutation.row ∧ record.isEmpty = false := by
    intro record made
    unfold Mutation.applyTo at made
    dsimp only at made
    split at made
    · cases made
    · next kept =>
        cases made
        exact ⟨mutation.row_written (filed.row mutation.row), Bool.eq_false_iff.mpr kept⟩
  constructor <;> intro row record found <;> rw [read_submit] at found <;> split at found
  · next landed => exact landed.1 ▸ (applied record found).1
  · exact filed.row row record found
  · exact (applied record found).2
  · exact filed.cell row record found

theorem Filed.exists_cell {store : Memory} (filed : store.Filed) {row : String}
    {record : Record} (found : store.read row = some record) :
    ∃ column, store.cell? row column ≠ none := by
  refine Classical.byContradiction fun blank => ?_
  have empty : record.isEmpty = true := SortedMap.isEmpty_iff.mpr fun column => by
    refine Classical.byContradiction fun value => blank ⟨column, ?_⟩
    rw [cell?, found]
    exact value
  exact Bool.noConfusion (empty.symm.trans (filed.cell row record found))

/-- Rows are no more than their cells. -/
theorem Filed.rows_eq {store later : Memory} (filed : store.Filed) (filedLater : later.Filed)
    (cells : ∀ row column, later.cell? row column = store.cell? row column) :
    later.rows = store.rows := by
  refine SortedMap.ext_get? fun row => ?_
  change later.read row = store.read row
  cases foundLater : later.read row with
  | none =>
      cases found : store.read row with
      | none => rfl
      | some record =>
          obtain ⟨column, value⟩ := filed.exists_cell found
          rw [← cells, cell?, foundLater] at value
          exact absurd rfl value
  | some recordLater =>
      cases found : store.read row with
      | none =>
          obtain ⟨column, value⟩ := filedLater.exists_cell foundLater
          rw [cells, cell?, found] at value
          exact absurd rfl value
      | some record =>
          have names : recordLater.row = record.row :=
            (filedLater.row row recordLater foundLater).trans (filed.row row record found).symm
          refine congrArg some (Record.ext_get? names fun column => ?_)
          have cell := cells row column
          rw [cell?, cell?, foundLater, found] at cell
          exact cell

/-- To put one value changes no row exactly if it stands there already. -/
theorem Filed.rows_put_iff {store : Memory} {mutation : Mutation} {column : Column}
    {value : Bytes} (filed : store.Filed) (puts : mutation.writes = [.put column value])
    (landed : store.lands mutation = true) :
    (store.submit mutation).2.rows = store.rows ↔
      store.cell? mutation.row column = some value := by
  have cells := store.cell?_submit mutation
  rw [puts] at cells
  constructor
  · intro same
    have put := cells mutation.row column
    rw [if_pos ⟨rfl, landed⟩, cell?, read, same] at put
    exact put.trans (by simp [Write.onCell])
  · intro stored
    refine filed.rows_eq (filed.submit _) fun row other => ?_
    rw [cells]
    split
    · next place =>
        obtain ⟨rfl, _⟩ := place
        by_cases same : column = other
        · subst same
          rw [stored]
          simp [Write.onCell]
        · simp [Write.onCell, same]
    · rfl

/-- A store that was empty once and has only taken mutations and faults since. -/
inductive Built : Memory → Prop where
  | empty : Built .empty
  | addFault {store : Memory} (fault : Fault) : Built store → Built (store.addFault fault)
  | submit {store : Memory} (mutation : Mutation) :
      Built store → Built (store.submit mutation).2

theorem Built.filed {store : Memory} (built : store.Built) : store.Filed := by
  induction built with
  | empty => exact .empty
  | addFault fault _ ih => exact ih.addFault fault
  | submit mutation _ ih => exact ih.submit mutation

end Memory

end GuardedRows
