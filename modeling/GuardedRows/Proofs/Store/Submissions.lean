import GuardedRows.Proofs.Store.Memory

/-!
# Submissions one after another

Mutations of different rows do not see one another: each one that lands finds its row as it
was before the first of them. They share the waiting faults, one each.
-/

set_option autoImplicit false

namespace GuardedRows.Memory

def submitAll (store : Memory) : List Mutation → Memory
  | [] => store
  | mutation :: rest => (store.submit mutation).2.submitAll rest

/-- What each of the mutations is answered. -/
def answers (store : Memory) : List Mutation → List (Mutation × Outcome)
  | [] => []
  | mutation :: rest =>
      (mutation, (store.submit mutation).1) :: (store.submit mutation).2.answers rest

def verdicts (store : Memory) : List Mutation → List (Mutation × Bool)
  | [] => []
  | mutation :: rest =>
      (mutation, store.lands mutation) :: (store.submit mutation).2.verdicts rest

variable {store : Memory} {mutations : List Mutation} {mutation : Mutation} {landed : Bool}

theorem mem_of_mem_verdicts (member : (mutation, landed) ∈ store.verdicts mutations) :
    mutation ∈ mutations := by
  induction mutations generalizing store with
  | nil => cases member
  | cons head rest ih =>
      rcases List.mem_cons.mp member with same | member
      · cases same
        exact List.mem_cons_self
      · exact List.mem_cons_of_mem head (ih member)

theorem exists_mem_verdicts (store : Memory) (member : mutation ∈ mutations) :
    ∃ landed, (mutation, landed) ∈ store.verdicts mutations := by
  induction mutations generalizing store with
  | nil => cases member
  | cons head rest ih =>
      rcases List.mem_cons.mp member with rfl | member
      · exact ⟨_, List.mem_cons_self⟩
      · obtain ⟨landed, found⟩ := ih (store.submit head).2 member
        exact ⟨landed, List.mem_cons_of_mem _ found⟩

@[simp] theorem faults_submitAll (store : Memory) (mutations : List Mutation) :
    (store.submitAll mutations).faults = store.faults.drop mutations.length := by
  induction mutations generalizing store with
  | nil => rfl
  | cons head rest ih => simp [submitAll, ih]

theorem read_submitAll_of_ne {row : String}
    (elsewhere : ∀ mutation ∈ mutations, mutation.row ≠ row) :
    (store.submitAll mutations).read row = store.read row := by
  induction mutations generalizing store with
  | nil => rfl
  | cons head rest ih =>
      have other : row ≠ head.row := (elsewhere head List.mem_cons_self).symm
      rw [submitAll, ih fun mutation member => elsewhere mutation (.tail _ member), read_submit]
      simp [other]

@[simp] theorem length_answers (store : Memory) (mutations : List Mutation) :
    (store.answers mutations).length = mutations.length := by
  induction mutations generalizing store with
  | nil => rfl
  | cons head rest ih => exact congrArg (· + 1) (ih (store.submit head).2)

/-- What one of the mutations is answered, by the ones before it. -/
theorem getElem?_answers (store : Memory) (earlier rest : List Mutation) (mutation : Mutation) :
    (store.answers (earlier ++ mutation :: rest))[earlier.length]? =
      some (mutation, ((store.submitAll earlier).submit mutation).1) := by
  induction earlier generalizing store with
  | nil => rfl
  | cons head tail ih => exact ih (store.submit head).2

theorem Built.submitAll (built : store.Built) (mutations : List Mutation) :
    (store.submitAll mutations).Built := by
  induction mutations generalizing store with
  | nil => exact built
  | cons head rest ih => exact ih (built.submit head)

section Distinct

variable (distinct : mutations.Pairwise fun left right => left.row ≠ right.row)

include distinct

theorem verdicts_unique {other : Bool} (first : (mutation, landed) ∈ store.verdicts mutations)
    (second : (mutation, other) ∈ store.verdicts mutations) : landed = other := by
  induction mutations generalizing store with
  | nil => cases first
  | cons head rest ih =>
      obtain ⟨others, distinct⟩ := List.pairwise_cons.mp distinct
      have absent : ∀ verdict, (head, verdict) ∉ (store.submit head).2.verdicts rest :=
        fun _ member => others head (mem_of_mem_verdicts member) rfl
      rcases List.mem_cons.mp first with same | first
      · cases same
        rcases List.mem_cons.mp second with same | second
        · cases same
          rfl
        · exact absurd second (absent other)
      · rcases List.mem_cons.mp second with same | second
        · cases same
          exact absurd first (absent landed)
        · exact ih distinct first second

theorem read_submitAll (member : (mutation, landed) ∈ store.verdicts mutations) :
    (store.submitAll mutations).read mutation.row =
      if landed then mutation.applyTo (store.read mutation.row)
      else store.read mutation.row := by
  induction mutations generalizing store with
  | nil => cases member
  | cons head rest ih =>
      obtain ⟨others, distinct⟩ := List.pairwise_cons.mp distinct
      rcases List.mem_cons.mp member with same | member
      · cases same
        rw [submitAll, read_submitAll_of_ne fun mutation found => (others mutation found).symm,
          read_submit]
        simp
      · have other := (others mutation (mem_of_mem_verdicts member)).symm
        rw [submitAll, ih distinct member, read_submit]
        simp [other]

/-- A mutation lands if its conditions hold of the row as it was, unless it meets a fault that
drops it. -/
theorem landed_iff (member : (mutation, landed) ∈ store.verdicts mutations) :
    ∃ fault, (∀ met ∈ fault, met ∈ store.faults.take mutations.length) ∧
      landed = (fault != some .dropped && mutation.conditionsHold (store.read mutation.row)) := by
  induction mutations generalizing store with
  | nil => cases member
  | cons head rest ih =>
      obtain ⟨others, distinct⟩ := List.pairwise_cons.mp distinct
      rcases List.mem_cons.mp member with same | member
      · cases same
        refine ⟨store.faults.head?, fun met first => ?_, rfl⟩
        cases faults : store.faults with
        | nil => simp [faults] at first
        | cons fault others => simp_all
      · have other := (others mutation (mem_of_mem_verdicts member)).symm
        obtain ⟨fault, waiting, decided⟩ := ih distinct member
        refine ⟨fault, fun met same => ?_, ?_⟩
        · have later := waiting met same
          rw [faults_submit] at later
          cases faults : store.faults with
          | nil => simp [faults] at later
          | cons first others =>
              rw [faults] at later
              exact List.mem_cons_of_mem first later
        · rw [decided, read_submit]
          simp [other]

end Distinct

/-! ## Mutations that are asked for -/

/-- The conditions of mutations of different rows hold, so each of them lands unless it is
dropped. -/
structure Ready (store : Memory) (mutations : List Mutation) : Prop where
  distinct : mutations.Pairwise fun left right => left.row ≠ right.row
  holds : ∀ mutation ∈ mutations, mutation.conditionsHold (store.read mutation.row) = true

namespace Ready

theorem of_sublist {kept : List Mutation} (ready : Ready store mutations)
    (among : kept.Sublist mutations) : Ready store kept where
  distinct := ready.distinct.sublist among
  holds mutation member := ready.holds mutation (among.subset member)

theorem of_rows {later : Memory} (ready : Ready store mutations)
    (same : later.rows = store.rows) : Ready later mutations where
  distinct := ready.distinct
  holds mutation member := by
    rw [read, same]
    exact ready.holds mutation member

theorem submit {rest : List Mutation} (ready : Ready store (mutation :: rest)) :
    Ready (store.submit mutation).2 rest where
  distinct := (List.pairwise_cons.mp ready.distinct).2
  holds other member := by
    have apart := (List.pairwise_cons.mp ready.distinct).1 other member
    rw [read_submit, if_neg fun both => apart both.1.symm]
    exact ready.holds other (.tail _ member)

theorem lands_head {rest : List Mutation} (ready : Ready store (mutation :: rest))
    (kept : store.faults.head? ≠ some .dropped) : store.lands mutation = true :=
  Bool.and_eq_true_iff.mpr ⟨bne_iff_ne.mpr kept, ready.holds mutation List.mem_cons_self⟩

/-- Where no fault waits all of them are applied. -/
theorem read_submitAll (ready : Ready store mutations) (calm : store.faults = [])
    (member : mutation ∈ mutations) :
    (store.submitAll mutations).read mutation.row =
      mutation.applyTo (store.read mutation.row) := by
  obtain ⟨landed, verdict⟩ := store.exists_mem_verdicts member
  obtain ⟨fault, waiting, decided⟩ := landed_iff ready.distinct verdict
  have spared : fault = none := by
    refine Option.eq_none_iff_forall_ne_some.mpr fun met same => ?_
    have found := waiting met (Option.mem_def.mpr same)
    rw [calm, List.take_nil] at found
    cases found
  have applied : landed = true := by
    rw [decided, spared, ready.holds mutation member]
    rfl
  rw [Memory.read_submitAll ready.distinct verdict, if_pos applied]

end Ready

end GuardedRows.Memory
