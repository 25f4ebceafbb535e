import GuardedRows.Proofs.Store.Submissions

/-!
# Rows are independent of one another

A store without faults answers a mutation by what it was sent for the same row before. So
mutations of different rows can be sent in any order, as long as the mutations of each row
stay in theirs.
-/

set_option autoImplicit false

namespace GuardedRows

/-- Two sequences that have the same mutations of each row in the same order. Each of them
is a reordering of the other one. -/
def SameByRow (left right : List Mutation) : Prop :=
  ∀ row, left.filter (·.row = row) = right.filter (·.row = row)

/-- Lists are reorderings of one another if they have the same members of every kind. -/
theorem perm_of_filter_eq {α κ : Type} [DecidableEq α] [DecidableEq κ] (kind : α → κ)
    {left right : List α}
    (same : ∀ wanted, left.filter (kind · = wanted) = right.filter (kind · = wanted)) :
    left.Perm right := by
  refine List.perm_iff_count.mpr fun value => ?_
  have own : decide (kind value = kind value) = true := decide_eq_true rfl
  rw [← List.count_filter (p := fun other => decide (kind other = kind value)) own,
    ← List.count_filter (l := right) (p := fun other => decide (kind other = kind value)) own,
    same]

theorem SameByRow.perm {left right : List Mutation} (same : SameByRow left right) :
    left.Perm right :=
  perm_of_filter_eq Mutation.row same

namespace Memory

variable {store later : Memory} {row : String}

theorem calm_submit (calm : store.faults = []) (mutation : Mutation) :
    (store.submit mutation).2.faults = [] := by
  rw [faults_submit, calm, List.tail_nil]

theorem calm_submitAll (calm : store.faults = []) (mutations : List Mutation) :
    (store.submitAll mutations).faults = [] := by
  rw [faults_submitAll, calm, List.drop_nil]

/-! ## Stores that agree on a row -/

/-- Two stores without faults that hold the same in a row. -/
structure AgreeOn (row : String) (store later : Memory) : Prop where
  calm : store.faults = []
  calmLater : later.faults = []
  read : store.read row = later.read row

namespace AgreeOn

theorem refl (calm : store.faults = []) : AgreeOn row store store := ⟨calm, calm, rfl⟩

theorem submit_of_ne (agree : AgreeOn row store later) {mutation : Mutation}
    (apart : mutation.row ≠ row) : AgreeOn row (store.submit mutation).2 later where
  calm := calm_submit agree.calm mutation
  calmLater := agree.calmLater
  read := by
    rw [read_submit, if_neg fun both => apart both.1.symm]
    exact agree.read

theorem lands_eq (agree : AgreeOn row store later) {mutation : Mutation}
    (own : mutation.row = row) : store.lands mutation = later.lands mutation := by
  rw [lands, lands, agree.calm, agree.calmLater, own, agree.read]

theorem outcome_eq (agree : AgreeOn row store later) {mutation : Mutation}
    (own : mutation.row = row) : (store.submit mutation).1 = (later.submit mutation).1 := by
  rw [outcome_submit, outcome_submit, agree.calm, agree.calmLater, agree.lands_eq own]

theorem submit (agree : AgreeOn row store later) {mutation : Mutation}
    (own : mutation.row = row) :
    AgreeOn row (store.submit mutation).2 (later.submit mutation).2 where
  calm := calm_submit agree.calm mutation
  calmLater := calm_submit agree.calmLater mutation
  read := by
    rw [read_submit, read_submit, agree.lands_eq own, own, agree.read]

/-- What one row is answered and comes to depends on the mutations of that row alone. -/
theorem answers (agree : AgreeOn row store later) (mutations : List Mutation) :
    (store.answers mutations).filter (·.1.row = row) =
        later.answers (mutations.filter (·.row = row)) ∧
      AgreeOn row (store.submitAll mutations)
        (later.submitAll (mutations.filter (·.row = row))) := by
  induction mutations generalizing store later with
  | nil => exact ⟨rfl, agree⟩
  | cons mutation rest ih =>
      by_cases own : mutation.row = row
      · obtain ⟨answered, left⟩ := ih (agree.submit own)
        simp only [Memory.answers, Memory.submitAll, List.filter_cons, own, decide_true, if_true]
        rw [answered, agree.outcome_eq own]
        exact ⟨rfl, left⟩
      · obtain ⟨answered, left⟩ := ih (agree.submit_of_ne own)
        simp only [Memory.answers, Memory.submitAll, List.filter_cons, own, decide_false,
          Bool.false_eq_true, if_false]
        exact ⟨answered, left⟩

end AgreeOn

/-! ## Whole stores -/

theorem eq_of_read (reads : ∀ row, later.read row = store.read row)
    (faults : later.faults = store.faults) (accepted : later.accepted = store.accepted)
    (rejected : later.rejected = store.rejected) : later = store := by
  have rows : later.rows = store.rows := SortedMap.ext_get? reads
  cases later
  cases store
  simp_all

theorem counts_eq (calm : store.faults = []) (mutations : List Mutation) :
    (store.submitAll mutations).accepted =
        store.accepted + (store.answers mutations).countP (·.2 = .accepted) ∧
      (store.submitAll mutations).rejected =
        store.rejected + (store.answers mutations).countP (·.2 = .rejected) := by
  induction mutations generalizing store with
  | nil => exact ⟨rfl, rfl⟩
  | cons mutation rest ih =>
      obtain ⟨accepted, rejected⟩ := ih (calm_submit calm mutation)
      rw [submitAll, Memory.answers, accepted, rejected, outcome_submit, if_pos calm]
      cases landed : store.lands mutation with
      | true =>
          rw [submit_of_lands landed]
          cases made : mutation.applyTo (store.read mutation.row) <;>
            simp [setRow, Nat.add_assoc, Nat.add_comm]
      | false =>
          rw [submit_of_not_lands landed]
          simp [calm, Nat.add_assoc, Nat.add_comm]

end Memory

/-- In a store without faults, a reordering that keeps the order of the mutations of each
row changes neither what any of them is answered nor what the store comes to. -/
theorem SameByRow.submitAll_eq {left right : List Mutation} (same : SameByRow left right)
    {store : Memory} (calm : store.faults = []) :
    store.submitAll left = store.submitAll right ∧
      ∀ row, (store.answers left).filter (·.1.row = row) =
        (store.answers right).filter (·.1.row = row) := by
  have agree : ∀ row, Memory.AgreeOn row store store := fun _ => .refl calm
  have answers : ∀ row, (store.answers left).filter (·.1.row = row) =
      (store.answers right).filter (·.1.row = row) := by
    intro row
    rw [((agree row).answers left).1, ((agree row).answers right).1, same row]
  refine ⟨?_, answers⟩
  have reads : ∀ row, (store.submitAll left).read row = (store.submitAll right).read row := by
    intro row
    rw [((agree row).answers left).2.read, ((agree row).answers right).2.read, same row]
  have perm := perm_of_filter_eq (fun answer : Mutation × Outcome => answer.1.row) answers
  obtain ⟨acceptedLeft, rejectedLeft⟩ := Memory.counts_eq calm left
  obtain ⟨acceptedRight, rejectedRight⟩ := Memory.counts_eq calm right
  apply Memory.eq_of_read reads
  · rw [Memory.faults_submitAll, Memory.faults_submitAll, calm, List.drop_nil, List.drop_nil]
  · rw [acceptedLeft, acceptedRight, perm.countP_eq]
  · rw [rejectedLeft, rejectedRight, perm.countP_eq]

/-- Stores a cell where there is no row. -/
def firstPut (row : String) : Mutation := ⟨row, [.rowAbsent], [.put ⟨"f", "q"⟩ [1]]⟩

/-- Replaces the cell. -/
def nextPut (row : String) : Mutation := ⟨row, [.equals ⟨"f", "q"⟩ [1]], [.put ⟨"f", "q"⟩ [2]]⟩

theorem SameByRow.submitAll_eq_grouped :
    Memory.empty.submitAll [firstPut "a", firstPut "b", nextPut "a", nextPut "b"] =
      Memory.empty.submitAll [firstPut "a", nextPut "a", firstPut "b", nextPut "b"] := by
  have same : SameByRow [firstPut "a", firstPut "b", nextPut "a", nextPut "b"]
      [firstPut "a", nextPut "a", firstPut "b", nextPut "b"] := by
    intro row
    by_cases first : "a" = row
    · subst first
      rfl
    · by_cases second : "b" = row
      · subst second
        rfl
      · simp [firstPut, nextPut, first, second]
  have calm : Memory.empty.faults = [] := rfl
  exact (same.submitAll_eq calm).1

end GuardedRows
