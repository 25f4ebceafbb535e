import GuardedRows.Proofs.Store.Submissions
import GuardedRows.Proofs.Store.Transparency

/-!
# Runs with the faults taken out

A store with waiting faults does just what a store without them does that never gets the
mutations dropped. The faults are used up one by one from the first mutation on, so what is
hidden are the answers to the first mutations, as many as there were faults.
-/

set_option autoImplicit false

namespace GuardedRows.Memory

variable {store : Memory} {mutation : Mutation}

/-! ## Single submissions -/

theorem told_of_calm (calm : store.faults = []) : store.told = store := by
  cases store
  cases calm
  rfl

private theorem told_apply (store : Memory) (mutation : Mutation) :
    (store.apply mutation).2.told = (store.told.apply mutation).2 := by
  unfold apply told read
  dsimp only
  split
  · cases mutation.applyTo (store.rows.get? mutation.row) <;> rfl
  · rfl

theorem told_submit_of_dropped (dropped : store.faults.head? = some .dropped) :
    (store.submit mutation).2.told = store.told := by
  obtain ⟨rows, faults, accepted, rejected⟩ := store
  cases faults with
  | nil => cases dropped
  | cons fault rest =>
      cases dropped
      rfl

theorem told_submit_of_kept (kept : store.faults.head? ≠ some .dropped) :
    (store.submit mutation).2.told = (store.told.submit mutation).2 := by
  obtain ⟨rows, faults, accepted, rejected⟩ := store
  cases faults with
  | nil => exact told_apply _ mutation
  | cons fault rest =>
      cases fault with
      | applied => exact told_apply _ mutation
      | dropped => exact absurd rfl kept

theorem outcome_of_fault (waiting : store.faults ≠ []) :
    (store.submit mutation).1 = .unknown := by
  rw [outcome_submit, if_neg waiting]

private theorem counts_submit (store : Memory) (mutation : Mutation) :
    (store.submit mutation).2.accepted + (store.submit mutation).2.rejected +
        (if store.faults.head? = some .dropped then 1 else 0) =
      store.accepted + store.rejected + 1 := by
  cases lands : store.lands mutation with
  | true =>
      have kept : store.faults.head? ≠ some .dropped :=
        bne_iff_ne.mp (Bool.and_eq_true_iff.mp lands).1
      rw [submit_of_lands lands, if_neg kept]
      dsimp only [setRow]
      cases mutation.applyTo (store.read mutation.row) <;> dsimp only <;> omega
  | false =>
      rw [submit_of_not_lands lands]
      dsimp only
      split <;> omega

/-! ## Sequences of submissions -/

/-- The mutations that are not dropped, if the first of the faults meets the first of the
mutations and so on. -/
def undropped : List Fault → List Mutation → List Mutation
  | [], mutations => mutations
  | _ :: _, [] => []
  | .applied :: faults, mutation :: rest => mutation :: undropped faults rest
  | .dropped :: faults, _ :: rest => undropped faults rest

theorem told_submitAll (store : Memory) (mutations : List Mutation) :
    (store.submitAll mutations).told =
      store.told.submitAll (undropped store.faults mutations) := by
  induction mutations generalizing store with
  | nil => cases shape : store.faults <;> rfl
  | cons mutation rest ih =>
      rw [submitAll, ih, faults_submit]
      cases shape : store.faults with
      | nil =>
          rw [told_submit_of_kept (by simp [shape])]
          rfl
      | cons fault faults =>
          cases fault with
          | applied =>
              rw [told_submit_of_kept (by simp [shape])]
              rfl
          | dropped =>
              rw [told_submit_of_dropped (by simp [shape])]
              rfl

/-- The mutations that meet a fault are answered as unknown, and all others as in the run
without faults. -/
theorem answers_eq (store : Memory) (mutations : List Mutation) :
    let met := mutations.take store.faults.length
    store.answers mutations =
      met.map (·, .unknown) ++
        (store.told.answers (undropped store.faults mutations)).drop
          (undropped store.faults met).length := by
  intro met
  induction mutations generalizing store with
  | nil =>
      have none : undropped store.faults [] = [] := by cases store.faults <;> rfl
      simp [met, answers, none]
  | cons mutation rest ih =>
      have later := ih (store.submit mutation).2
      dsimp only at later
      rw [faults_submit] at later
      cases shape : store.faults with
      | nil => simp [met, shape, undropped, told_of_calm shape]
      | cons fault faults =>
          have hidden : (store.submit mutation).1 = .unknown :=
            outcome_of_fault (by simp [shape])
          rw [answers, hidden, later]
          simp only [met, shape, List.tail_cons, List.length_cons, List.take_succ_cons,
            List.map_cons, List.cons_append]
          cases fault with
          | applied =>
              rw [told_submit_of_kept (by simp [shape])]
              rfl
          | dropped =>
              rw [told_submit_of_dropped (by simp [shape])]
              rfl

theorem counts_submitAll (store : Memory) (mutations : List Mutation) :
    (store.submitAll mutations).accepted + (store.submitAll mutations).rejected +
        (store.faults.take mutations.length).count .dropped =
      store.accepted + store.rejected + mutations.length := by
  induction mutations generalizing store with
  | nil => simp [submitAll]
  | cons mutation rest ih =>
      have first := counts_submit store mutation
      have others := ih (store.submit mutation).2
      rw [faults_submit] at others
      rw [submitAll, List.length_cons]
      cases shape : store.faults with
      | nil =>
          simp only [shape, List.tail_nil, List.take_nil, List.count_nil] at others ⊢
          simp only [shape, List.head?_nil, reduceCtorEq, if_false] at first
          omega
      | cons fault faults =>
          simp only [shape, List.tail_cons, List.take_succ_cons, List.count_cons,
            List.head?_cons, Option.some.injEq, beq_iff_eq] at first others ⊢
          omega

theorem undropped_sublist (faults : List Fault) (mutations : List Mutation) :
    (undropped faults mutations).Sublist mutations := by
  fun_induction undropped faults mutations with
  | case1 => exact List.Sublist.refl _
  | case2 => exact List.Sublist.refl _
  | case3 faults mutation rest ih => exact ih.cons_cons mutation
  | case4 faults mutation rest ih => exact ih.cons mutation

/-- Of the mutations that land, those that meet a fault are not told to be accepted. -/
theorem Ready.count_accepted {mutations : List Mutation} (ready : Ready store mutations) :
    (store.answers mutations).countP (·.2 = .accepted) +
        (store.faults.take mutations.length).count .applied =
      (undropped store.faults mutations).length := by
  induction mutations generalizing store with
  | nil => cases shape : store.faults <;> simp [answers, undropped]
  | cons mutation rest ih =>
      have later := ih ready.submit
      rw [faults_submit] at later
      cases shape : store.faults with
      | nil =>
          have accepted : (store.submit mutation).1 = .accepted := by
            rw [outcome_submit, if_pos shape, ready.lands_head (by simp [shape]), if_pos rfl]
          rw [shape, List.tail_nil, undropped, List.take_nil, List.count_nil] at later
          rw [answers, accepted, undropped, List.take_nil, List.count_nil, List.length_cons,
            ← later, List.countP_cons]
          rfl
      | cons fault faults =>
          have hidden : (store.submit mutation).1 = .unknown :=
            outcome_of_fault (by simp [shape])
          rw [shape, List.tail_cons] at later
          rw [answers, hidden, List.countP_cons, List.length_cons, List.take_succ_cons]
          cases fault with
          | applied =>
              rw [undropped, List.length_cons, ← later, List.count_cons_self]
              exact (Nat.add_assoc _ _ 1).symm
          | dropped =>
              rw [undropped, ← later, List.count_cons_of_ne (by decide)]
              rfl

theorem Ready.count_accepted_of_calm {mutations : List Mutation} (ready : Ready store mutations)
    (calm : store.faults = []) :
    (store.answers mutations).countP (·.2 = .accepted) = mutations.length := by
  have counted := ready.count_accepted
  rwa [calm, List.take_nil, List.count_nil, Nat.add_zero, undropped] at counted

/-- A run with waiting faults leaves the rows and the counts of the run without faults that
leaves the dropped mutations out. What meets a fault is answered as unknown, the first
mutation by the first fault and so on, and everything else as in that run. Every mutation is
counted as accepted or rejected or is dropped. The counts are exact numbers, and are what
counters of 64 bits show as long as the last equation stays below `2 ^ 64`. -/
theorem faults_erased (store : Memory) (mutations : List Mutation) :
    let kept := undropped store.faults mutations
    let met := mutations.take store.faults.length
    store.submitAll mutations =
      { store.told.submitAll kept with faults := store.faults.drop mutations.length } ∧
    store.answers mutations =
      met.map (·, .unknown) ++
        (store.told.answers kept).drop (undropped store.faults met).length ∧
    (store.submitAll mutations).accepted + (store.submitAll mutations).rejected +
        (store.faults.take mutations.length).count .dropped =
      store.accepted + store.rejected + mutations.length := by
  intro kept met
  refine ⟨?_, store.answers_eq mutations, store.counts_submitAll mutations⟩
  rw [← told_submitAll, ← faults_submitAll]
  rfl

end GuardedRows.Memory
