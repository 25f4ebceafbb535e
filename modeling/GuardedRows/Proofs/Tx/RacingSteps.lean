import GuardedRows.Proofs.Store.RowIndependence
import GuardedRows.Proofs.Tx.Reading
import GuardedRows.Proofs.Tx.RecordedSteps

/-!
# Steps that race for their positions

Of the steps that are put at one position the first is stored, if none was stored there before,
and all others are rejected. Steps at different positions do not see one another: they can be
put in any order. Whatever the order, the steps are listed from the highest position down.
-/

set_option autoImplicit false

namespace GuardedRows.Tx

open StoreStep

/-! ## Steps that are put -/

/-- The mutation that puts one step. -/
def stepPut (id : Id) (put : UInt32 × Bytes) : Mutation :=
  Edit.mutation id [.putStep put.1 put.2]

/-- Puts one step after another, each by a mutation of its own. -/
def putSteps (id : Id) (puts : List (UInt32 × Bytes)) : StoreStep Memory (List Outcome) :=
  puts.mapM fun put => Edit.attempt id [.putStep put.1 put.2]

/-- The first of some steps that is for a position. -/
def earliest? (puts : List (UInt32 × Bytes)) (position : UInt32) : Option Bytes :=
  (puts.find? (·.1 = position)).map Prod.snd

theorem earliest?_eq_none_iff {puts : List (UInt32 × Bytes)} {position : UInt32} :
    earliest? puts position = none ↔ ∀ put ∈ puts, put.1 ≠ position := by
  simp [earliest?]

theorem earliest?_cons (put : UInt32 × Bytes) (rest : List (UInt32 × Bytes))
    (position : UInt32) :
    earliest? (put :: rest) position =
      (if put.1 = position then some put.2 else none).or (earliest? rest position) := by
  by_cases same : put.1 = position
  · simp [earliest?, same]
  · simp [earliest?, same]

variable {store : Memory} {id : Id}

theorem putSteps_eq (id : Id) (puts : List (UInt32 × Bytes)) (store : Memory) :
    putSteps id puts store =
      .ok ((store.answers (puts.map (stepPut id))).map Prod.snd)
        (store.submitAll (puts.map (stepPut id))) := by
  unfold putSteps
  induction puts generalizing store with
  | nil => rfl
  | cons put rest ih =>
      have sent : (Edit.attempt id [.putStep put.1 put.2] : StoreStep Memory Outcome) store =
          .ok (store.submit (stepPut id put)).1 (store.submit (stepPut id put)).2 :=
        Mutation.attempt_eq rfl
      rw [List.mapM_cons, bind_of_ok sent, bind_of_ok (ih _)]
      rfl

section Calm

variable (calm : store.faults = [])

include calm

/-! ## One step -/

theorem lands_stepPut (put : UInt32 × Bytes) :
    store.lands (stepPut id put) = (id.recorded? store put.1).isNone := by
  have asked : (stepPut id put).conditions = [.absent (stepColumn put.1)] := rfl
  have row : (stepPut id put).row = id.text := rfl
  unfold Memory.lands Mutation.conditionsHold
  rw [calm, asked, row, List.all_cons, List.all_nil, Bool.and_true]
  exact Bool.eq_iff_iff.mpr (Condition.holds_absent.trans Option.isNone_iff_eq_none.symm)

theorem outcome_stepPut (put : UInt32 × Bytes) :
    (store.submit (stepPut id put)).1 =
      if id.recorded? store put.1 = none then .accepted else .rejected := by
  rw [Memory.outcome_submit, if_pos calm, lands_stepPut calm]
  simp only [Option.isNone_iff_eq_none]

theorem recorded?_stepPut (put : UInt32 × Bytes) (position : UInt32) :
    id.recorded? (store.submit (stepPut id put)).2 position =
      (id.recorded? store position).or (if put.1 = position then some put.2 else none) := by
  have submitted : id.recorded? (store.submit (stepPut id put)).2 position = _ :=
    Edit.recorded?_submit store id id [.putStep put.1 put.2] position
  have lands : store.lands (Edit.mutation id [.putStep put.1 put.2]) = _ := lands_stepPut calm put
  rw [submitted, lands]
  by_cases same : put.1 = position
  · subst same
    cases id.recorded? store put.1 <;> simp [lastly, Edit.onStep]
  · have untouched : lastly (Edit.onStep position) [.putStep put.1 put.2]
        (id.recorded? store position) = id.recorded? store position :=
      lastly_of_untouched (by simp [Edit.onStep, same]) _
    rw [untouched, ite_self, if_neg same, Option.or_none]

theorem recorded?_stepPut_of_ne {put : UInt32 × Bytes} {position : UInt32}
    (apart : put.1 ≠ position) :
    id.recorded? (store.submit (stepPut id put)).2 position = id.recorded? store position := by
  rw [recorded?_stepPut calm, if_neg apart, Option.or_none]

theorem read_stepPut (put : UInt32 × Bytes) :
    (store.submit (stepPut id put)).2.read id.text =
      if id.recorded? store put.1 = none then
        some (((store.read id.text).getD (.blank id.text)).put (stepColumn put.1) put.2)
      else store.read id.text := by
  have applied : (stepPut id put).applyTo (store.read id.text) =
      some (((store.read id.text).getD (.blank id.text)).put (stepColumn put.1) put.2) := by
    unfold Mutation.applyTo
    exact if_neg (Bool.eq_false_iff.mp (Record.isEmpty_put _ _ _))
  have row : (stepPut id put).row = id.text := rfl
  rw [Memory.read_submit, lands_stepPut calm, row, applied]
  simp only [true_and, Option.isNone_iff_eq_none]

/-! ## Two steps at different positions -/

theorem read_swap {left right : UInt32 × Bytes} (apart : left.1 ≠ right.1) (row : String) :
    ((store.submit (stepPut id left)).2.submit (stepPut id right)).2.read row =
      ((store.submit (stepPut id right)).2.submit (stepPut id left)).2.read row := by
  by_cases own : row = id.text
  · subst own
    rw [read_stepPut (Memory.calm_submit calm _), read_stepPut (Memory.calm_submit calm _),
      recorded?_stepPut_of_ne calm apart, recorded?_stepPut_of_ne calm apart.symm,
      read_stepPut calm, read_stepPut calm]
    by_cases freeLeft : id.recorded? store left.1 = none
    · by_cases freeRight : id.recorded? store right.1 = none
      · have columns := mt stepColumn_injective apart
        simp only [if_pos freeLeft, if_pos freeRight, Option.getD_some]
        rw [Record.put_comm _ columns]
      · simp only [if_pos freeLeft, if_neg freeRight]
    · simp only [if_neg freeLeft]
  · have other : ∀ (store : Memory) (put : UInt32 × Bytes),
        (store.submit (stepPut id put)).2.read row = store.read row := fun store put => by
      rw [Memory.read_submit, if_neg fun both => own both.1]
    simp only [other]

/-- Steps at different positions do not see one another. -/
theorem submitAll_swap {left right : UInt32 × Bytes} (apart : left.1 ≠ right.1) :
    store.submitAll [stepPut id left, stepPut id right] =
      store.submitAll [stepPut id right, stepPut id left] := by
  have answers : (store.answers [stepPut id left, stepPut id right]).Perm
      (store.answers [stepPut id right, stepPut id left]) := by
    simp only [Memory.answers, outcome_stepPut calm, outcome_stepPut (Memory.calm_submit calm _),
      recorded?_stepPut_of_ne calm apart, recorded?_stepPut_of_ne calm apart.symm]
    exact .swap _ _ _
  have reads : ∀ row, (store.submitAll [stepPut id left, stepPut id right]).read row =
      (store.submitAll [stepPut id right, stepPut id left]).read row := read_swap calm apart
  obtain ⟨acceptedLeft, rejectedLeft⟩ :=
    Memory.counts_eq calm [stepPut id left, stepPut id right]
  obtain ⟨acceptedRight, rejectedRight⟩ :=
    Memory.counts_eq calm [stepPut id right, stepPut id left]
  apply Memory.eq_of_read reads
  · rw [Memory.calm_submitAll calm, Memory.calm_submitAll calm]
  · rw [acceptedLeft, acceptedRight, answers.countP_eq]
  · rw [rejectedLeft, rejectedRight, answers.countP_eq]

/-! ## One step after another -/

theorem recorded?_submitAll (puts : List (UInt32 × Bytes)) (position : UInt32) :
    id.recorded? (store.submitAll (puts.map (stepPut id))) position =
      (id.recorded? store position).or (earliest? puts position) := by
  induction puts generalizing store with
  | nil => exact Option.or_none.symm
  | cons put rest ih =>
      rw [List.map_cons, Memory.submitAll, ih (Memory.calm_submit calm _),
        recorded?_stepPut calm, earliest?_cons, Option.or_assoc]

/-- A step is accepted if its position was free and no step before it was for the same one. -/
theorem outcome_submitAll (earlier rest : List (UInt32 × Bytes)) (put : UInt32 × Bytes) :
    ((store.answers ((earlier ++ put :: rest).map (stepPut id))).map Prod.snd)[earlier.length]? =
      some (if id.recorded? store put.1 = none ∧ ∀ other ∈ earlier, other.1 ≠ put.1
        then .accepted else .rejected) := by
  have answered := store.getElem?_answers (earlier.map (stepPut id)) (rest.map (stepPut id))
    (stepPut id put)
  rw [List.length_map] at answered
  rw [List.getElem?_map, List.map_append, List.map_cons, answered, Option.map_some,
    outcome_stepPut (Memory.calm_submitAll calm _), recorded?_submitAll calm]
  simp only [Option.or_eq_none_iff, earliest?_eq_none_iff]

theorem outcomes_of_free {puts : List (UInt32 × Bytes)} (distinct : (puts.map Prod.fst).Nodup)
    (free : ∀ put ∈ puts, id.recorded? store put.1 = none) :
    (store.answers (puts.map (stepPut id))).map Prod.snd =
      List.replicate puts.length .accepted := by
  induction puts generalizing store with
  | nil => rfl
  | cons put rest ih =>
      obtain ⟨absent, distinct⟩ := List.nodup_cons.mp distinct
      have still : ∀ other ∈ rest,
          id.recorded? (store.submit (stepPut id put)).2 other.1 = none := by
        intro other member
        have apart : put.1 ≠ other.1 := fun same => absent (same ▸ List.mem_map_of_mem member)
        rw [recorded?_stepPut_of_ne calm apart]
        exact free other (.tail _ member)
      rw [List.map_cons, Memory.answers, List.map_cons,
        ih (Memory.calm_submit calm _) distinct still, outcome_stepPut calm,
        if_pos (free put List.mem_cons_self)]
      rfl

/-- Steps at different positions can be put in any order. -/
theorem submitAll_perm {order puts : List (UInt32 × Bytes)} (perm : order.Perm puts)
    (distinct : (order.map Prod.fst).Nodup) :
    store.submitAll (order.map (stepPut id)) = store.submitAll (puts.map (stepPut id)) := by
  induction perm generalizing store with
  | nil => rfl
  | cons put _ ih => exact ih (Memory.calm_submit calm _) (List.nodup_cons.mp distinct).2
  | swap left right rest =>
      have apart : right.1 ≠ left.1 := fun same =>
        (List.nodup_cons.mp distinct).1 (same ▸ List.mem_cons_self)
      exact congrArg (·.submitAll (rest.map (stepPut id))) (submitAll_swap calm apart)
  | trans first _ ihFirst ihSecond =>
      have middle := (first.map Prod.fst).nodup_iff.mp distinct
      exact (ihFirst calm distinct).trans (ihSecond calm middle)

theorem read_stepPut_ne_none (put : UInt32 × Bytes) :
    (store.submit (stepPut id put)).2.read id.text ≠ none := by
  rw [read_stepPut calm]
  split
  · exact Option.some_ne_none _
  · next recorded =>
      intro absent
      rw [Id.recorded?, Memory.cell?, absent] at recorded
      exact recorded rfl

theorem read_submitAll_eq_none_iff (puts : List (UInt32 × Bytes)) :
    (store.submitAll (puts.map (stepPut id))).read id.text = none ↔
      store.read id.text = none ∧ puts = [] := by
  induction puts generalizing store with
  | nil => simp [Memory.submitAll]
  | cons put rest ih =>
      rw [List.map_cons, Memory.submitAll, ih (Memory.calm_submit calm _)]
      simp [read_stepPut_ne_none calm]

end Calm

/-! ## Steps as they are read -/

/-- A record reads and has its steps in the columns of positions. -/
structure Legible (record : Record) : Prop where
  canonical : Canonical record
  reads : ∃ snapshot, Snapshot.ofRecord record = .ok snapshot

theorem legible_blank (id : Id) : Legible (.blank id.text) where
  canonical _ _ stored := absurd rfl stored
  reads := by
    refine ⟨⟨id, none, none, none, none, none, none, none, []⟩, ?_⟩
    rw [Snapshot.ofRecord, Record.blank, Id.parse_text]
    rfl

theorem Legible.put {record : Record} (legible : Legible record) (position : UInt32)
    (step : Bytes) : Legible (record.put (stepColumn position) step) := by
  obtain ⟨canonical, before, reads⟩ := legible
  let edits : List Edit := [.putStep position step]
  have row : ((Edit.mutation before.id edits).written (some record)).row = record.row := rfl
  have placed : Canonical ((Edit.mutation before.id edits).written (some record)) :=
    canonical.written
  obtain ⟨after, describes, _⟩ :=
    (Snapshot.describes_iff.mpr reads).written_of_row canonical row
  exact ⟨placed, after, Snapshot.describes_iff.mp describes⟩

/-- The record of a transaction is legible, if there is one. -/
def Id.LegibleIn (id : Id) (store : Memory) : Prop :=
  ∀ record, store.read id.text = some record → Legible record

/-- The step that a transaction shows at a position. -/
def Id.step? (id : Id) (store : Memory) (position : UInt32) : Option Bytes :=
  (id.snapshot? store).bind (·.step? position)

namespace Id.LegibleIn

theorem step?_eq (legible : id.LegibleIn store) (position : UInt32) :
    id.step? store position = id.recorded? store position := by
  unfold step? snapshot? readable recorded? Memory.cell?
  cases found : store.read id.text with
  | none => rfl
  | some record =>
      obtain ⟨canonical, snapshot, reads⟩ := legible record found
      have lists := (Snapshot.describes_iff.mpr reads).lists canonical
      rw [Option.bind_some, reads]
      exact Snapshot.step?_eq lists position

theorem submit (legible : id.LegibleIn store) (calm : store.faults = [])
    (put : UInt32 × Bytes) : id.LegibleIn (store.submit (stepPut id put)).2 := by
  intro record found
  rw [read_stepPut calm] at found
  split at found
  · cases found
    refine Legible.put ?_ put.1 put.2
    cases stored : store.read id.text with
    | none => exact legible_blank id
    | some before => exact legible before stored
  · exact legible record found

theorem submitAll (legible : id.LegibleIn store) (calm : store.faults = [])
    (puts : List (UInt32 × Bytes)) :
    id.LegibleIn (store.submitAll (puts.map (stepPut id))) := by
  induction puts generalizing store with
  | nil => exact legible
  | cons put rest ih => exact ih (legible.submit calm put) (Memory.calm_submit calm _)

end Id.LegibleIn

/-! ## Races -/

/-- How steps that race for their positions come out. -/
structure Raced (id : Id) (store : Memory) (puts : List (UInt32 × Bytes))
    (outcomes : List Outcome) (later : Memory) : Prop where
  length : outcomes.length = puts.length
  /-- A step is accepted if its position was free and no step before it was for the same one,
  and rejected if not. -/
  outcome : ∀ earlier put rest, puts = earlier ++ put :: rest →
    outcomes[earlier.length]? =
      some (if id.step? store put.1 = none ∧ ∀ other ∈ earlier, other.1 ≠ put.1
        then .accepted else .rejected)
  absent : later.read id.text = none ↔ store.read id.text = none ∧ puts = []
  /-- The record reads. Its steps are the ones of before and the first for each other position,
  from the highest position down, and the top is the step at the highest. -/
  reads : ∀ record, later.read id.text = some record →
    ∃ snapshot, Snapshot.ofRecord record = .ok snapshot ∧
      (snapshot.steps.Pairwise fun upper lower => lower.1 < upper.1) ∧
      (∀ position, snapshot.step? position =
        (id.step? store position).or (earliest? puts position)) ∧
      ∀ step, snapshot.top? = some step ↔
        ∃ position, (position, step) ∈ snapshot.steps ∧
          ∀ other ∈ snapshot.steps, other.1 ≤ position

theorem raced (calm : store.faults = []) (legible : id.LegibleIn store)
    (puts : List (UInt32 × Bytes)) :
    Raced id store puts ((store.answers (puts.map (stepPut id))).map Prod.snd)
      (store.submitAll (puts.map (stepPut id))) where
  length := by simp
  outcome earlier put rest split := by
    subst split
    rw [legible.step?_eq]
    exact outcome_submitAll calm earlier rest put
  absent := read_submitAll_eq_none_iff calm puts
  reads record found := by
    obtain ⟨canonical, snapshot, reads⟩ := legible.submitAll calm puts record found
    have lists := (Snapshot.describes_iff.mpr reads).lists canonical
    refine ⟨snapshot, reads, lists.descending, fun position => ?_,
      fun step => Snapshot.top?_eq_some_iff lists.descending⟩
    rw [legible.step?_eq, ← recorded?_submitAll calm, Id.recorded?, Memory.cell?, found]
    exact Snapshot.step?_eq lists position

/-- Where no fault waits, steps that are put one after another at positions of a transaction
come out by first come, first served. If the positions are different and free, all of the steps
are accepted in whatever order they are put, and the store comes to the same. -/
theorem putSteps_race (id : Id) (store : Memory) (calm : store.faults = [])
    (legible : id.LegibleIn store) (puts : List (UInt32 × Bytes)) :
    ∃ outcomes later, putSteps id puts store = .ok outcomes later ∧
      Raced id store puts outcomes later ∧
      ((puts.map Prod.fst).Nodup → (∀ put ∈ puts, id.step? store put.1 = none) →
        ∀ order : List (UInt32 × Bytes), order.Perm puts →
          putSteps id order store = .ok (List.replicate puts.length .accepted) later) := by
  refine ⟨_, _, putSteps_eq id puts store, raced calm legible puts, ?_⟩
  intro distinct free order perm
  have distinctOrder := (perm.map Prod.fst).nodup_iff.mpr distinct
  have freeOrder : ∀ put ∈ order, id.recorded? store put.1 = none := by
    intro put member
    rw [← legible.step?_eq]
    exact free put (perm.subset member)
  rw [putSteps_eq, outcomes_of_free calm distinctOrder freeOrder, perm.length_eq,
    submitAll_perm calm perm distinctOrder]

/-- Two workers put a step at the same position, and a third one below it. -/
def racingPuts : List (UInt32 × Bytes) := [(3, [7]), (1, [8]), (3, [9])]

theorem putSteps_race_racingPuts :
    let store := (Clients.start.run 100 (reserved "worker")).store
    (∃ outcomes later, putSteps holder.transaction racingPuts store = .ok outcomes later ∧
      outcomes[2]? = some .rejected) ∧
    ∃ later, putSteps holder.transaction [(3, [7]), (1, [8])] store =
        .ok [.accepted, .accepted] later ∧
      putSteps holder.transaction [(1, [8]), (3, [7])] store =
        .ok [.accepted, .accepted] later := by
  intro store
  have holds : Stacks 100 _ store := (Stacks.start 100).run (reserved "worker")
  have calm : store.faults = [] := by decide +kernel
  have legible : holder.transaction.LegibleIn store := by
    intro record found
    obtain ⟨snapshot, reads, _⟩ := holds.exists_ofRecord found
    exact ⟨holds.canonical found, snapshot, reads⟩
  constructor
  · obtain ⟨outcomes, later, ran, raced, _⟩ :=
      putSteps_race holder.transaction store calm legible racingPuts
    have third := raced.outcome [(3, [7]), (1, [8])] (3, [9]) [] rfl
    rw [if_neg fun free => free.2 _ List.mem_cons_self rfl] at third
    exact ⟨outcomes, later, ran, third⟩
  · obtain ⟨_, later, _, _, anyOrder⟩ :=
      putSteps_race holder.transaction store calm legible [(3, [7]), (1, [8])]
    have free : ∀ put ∈ [((3 : UInt32), ([7] : Bytes)), (1, [8])],
        holder.transaction.step? store put.1 = none := by
      decide +kernel
    have same := anyOrder (by decide) free
    exact ⟨later, same _ (.refl _), same _ (.swap _ _ _)⟩

end GuardedRows.Tx
