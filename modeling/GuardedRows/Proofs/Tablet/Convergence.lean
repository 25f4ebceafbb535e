import GuardedRows.Proofs.Tablet.PassEffect

/-!
# Repeated passes settle

Whatever a store hides, an answer of zero means that every covered tablet has the target. If
no tablet that still has to be changed is claimed, a pass falls short only where a fault
dropped a mutation, so each such pass uses up a dropping fault.
-/

set_option autoImplicit false

namespace GuardedRows.Tablet

theorem Availability.eq_text_of_parse {text : String} {availability : Availability}
    (parsed : Availability.parse text = .ok availability) : text = availability.text := by
  unfold parse at parsed
  grind [Availability.text]

namespace AvailabilityChange

variable {change : AvailabilityChange} {catalog : Catalog} {config : Config} {store : Memory}
  {tablets : List Metadata} {tablet : Metadata}

def Unclaimed (change : AvailabilityChange) (tablets : List Metadata) : Prop :=
  ∀ tablet ∈ tablets, change.range.Covers tablet.extent →
    tablet.availability ≠ some change.availability → tablet.operation = none

/-- Stores and answers of one pass after another. -/
def Passes (change : AvailabilityChange) (catalog : Catalog) (config : Config)
    (elapsed : Nat → Duration) (stores : Nat → Memory) (hints : Nat → UInt64) : Prop :=
  ∀ round, change.isReady catalog config (elapsed round) (stores round) =
    .ok (hints round) (stores (round + 1))

def ahead {α : Type} (first : α) (rest : Nat → α) : Nat → α
  | 0 => first
  | round + 1 => rest round

theorem Passes.ahead {elapsed : Nat → Duration} {stores : Nat → Memory} {hints : Nat → UInt64}
    {hint : UInt64} (passes :
      change.Passes catalog config (fun round => elapsed (round + 1)) stores hints)
    (first : change.isReady catalog config (elapsed 0) store = .ok hint (stores 0)) :
    change.Passes catalog config elapsed (ahead store stores) (ahead hint hints) := by
  intro round
  cases round with
  | zero => exact first
  | succ round => exact passes round

theorem Unclaimed.after (unclaimed : change.Unclaimed tablets) :
    change.Unclaimed (change.after store tablets) := by
  intro changed later covers differs
  obtain ⟨tablet, member, rfl⟩ := List.mem_map.mp later
  rw [extent_changed] at covers
  rw [operation_changed]
  refine unclaimed tablet member covers fun same => differs ?_
  cases change.landsIn store tablets tablet with
  | false => exact same
  | true => rfl

theorem due_after (all : ∀ tablet ∈ change.due tablets,
    change.landsIn store tablets tablet = true) :
    change.due (change.after store tablets) = [] := by
  refine List.eq_nil_iff_forall_not_mem.mpr fun changed due => ?_
  obtain ⟨later, covers, differs⟩ := mem_due_iff.mp due
  obtain ⟨tablet, member, rfl⟩ := List.mem_map.mp later
  rw [extent_changed] at covers
  cases landed : change.landsIn store tablets tablet with
  | true =>
      rw [landed] at differs
      exact differs rfl
  | false =>
      rw [landed] at differs
      have missed := all tablet (mem_due_iff.mpr ⟨member, covers, differs⟩)
      exact Bool.noConfusion (landed.symm.trans missed)

section Holds

variable (holds : Holds store change.table tablets)

include holds

/-- A pass that falls short uses up a dropping fault. -/
theorem count_dropped_lt (unclaimed : change.Unclaimed tablets)
    (short : ¬∀ tablet ∈ change.due tablets, change.landsIn store tablets tablet = true) :
    (store.submitAll (change.sent tablets)).faults.count .dropped <
      store.faults.count .dropped := by
  simp only [Classical.not_forall] at short
  obtain ⟨tablet, due, missed⟩ := short
  obtain ⟨member, covers, differs⟩ := mem_due_iff.mp due
  obtain ⟨fault, waiting, decided⟩ := landsIn_eq holds due
  rw [unclaimed tablet member covers differs] at decided
  have dropped : fault = some .dropped := by
    simpa [decided] using missed
  have used : Fault.dropped ∈ store.faults.take (change.due tablets).length :=
    waiting .dropped dropped
  have split := congrArg (List.count Fault.dropped)
    (List.take_append_drop (change.due tablets).length store.faults)
  rw [List.count_append] at split
  have some := List.count_pos_iff.mpr used
  rw [Memory.faults_submitAll, sent, List.length_map]
  omega

theorem cell?_of_all_landed (all : ∀ tablet ∈ change.due tablets,
    change.landsIn store tablets tablet = true) (member : tablet ∈ tablets)
    (covers : change.range.Covers tablet.extent) :
    (store.submitAll (change.sent tablets)).cell? tablet.extent.metadataRow availabilityColumn =
      some (Bytes.ofText change.availability.text) := by
  rw [cell?_submitAll_sent holds member]
  by_cases landed : change.landsIn store tablets tablet = true
  · rw [if_pos ⟨landed, rfl⟩]
  · rw [if_neg fun both => landed both.1]
    have done : tablet.availability = some change.availability :=
      Classical.not_not.mp fun differs =>
        landed (all tablet (mem_due_iff.mpr ⟨member, covers, differs⟩))
    obtain ⟨record, found, describes⟩ := holds.recorded tablet member
    have told := describes.availability
    rw [done] at told
    obtain ⟨text, cell, parsed⟩ := told
    rw [Memory.cell?, Option.mem_def.mp found, Option.bind_some, cell,
      Availability.eq_text_of_parse parsed]

theorem isReady_of_due_eq_nil (filed : store.Filed)
    (online : catalog.tableState change.table = .online) (sound : config.flaw? = none)
    (none : change.due tablets = []) (elapsed : Duration) :
    change.isReady catalog config elapsed store = .ok 0 store := by
  obtain ⟨hint, ready, done, _⟩ := isReady_spec holds filed online sound elapsed
  have zero : hint = 0 := done.mpr fun tablet due => by simp [none] at due
  rw [ready, zero, sent, none]
  rfl

end Holds

/-- Passes over an unclaimed table fall short at most once for each dropping fault, and then
no more. -/
theorem exists_passes (built : store.Built) (holds : Holds store change.table tablets)
    (online : catalog.tableState change.table = .online) (sound : config.flaw? = none)
    (unclaimed : change.Unclaimed tablets) (elapsed : Nat → Duration) :
    ∃ short ≤ store.faults.count .dropped, ∃ stores hints,
      stores 0 = store ∧ change.Passes catalog config elapsed stores hints ∧
        ∀ round, hints round = 0 ↔ short ≤ round := by
  induction drops : store.faults.count .dropped using Nat.strongRecOn
    generalizing store tablets elapsed with
  | ind bound ih =>
      obtain ⟨hint, ready, done, _⟩ := isReady_spec holds built.filed online sound (elapsed 0)
      have laterHolds := holds_after holds
      have laterBuilt := built.submitAll (change.sent tablets)
      by_cases all : ∀ tablet ∈ change.due tablets, change.landsIn store tablets tablet = true
      · have settled : change.Passes catalog config (fun round => elapsed (round + 1))
            (fun _ => store.submitAll (change.sent tablets)) (fun _ => 0) := fun round =>
          isReady_of_due_eq_nil laterHolds laterBuilt.filed online sound (due_after all) _
        refine ⟨0, Nat.zero_le bound, _, _, rfl, settled.ahead ready, fun round => ?_⟩
        cases round with
        | zero => simpa [ahead] using done.mpr all
        | succ round => simp [ahead]
      · have fewer := drops ▸ count_dropped_lt holds unclaimed all
        obtain ⟨short, within, stores, hints, start, passes, settled⟩ :=
          ih _ fewer laterBuilt laterHolds unclaimed.after (fun round => elapsed (round + 1)) rfl
        refine ⟨short + 1, Nat.succ_le_of_lt (Nat.lt_of_le_of_lt within fewer), _, _, rfl,
          passes.ahead (start ▸ ready), fun round => ?_⟩
        cases round with
        | zero => simpa [ahead] using mt done.mp all
        | succ round => simp [ahead, settled round]

/-- Passes under faults: an answer of zero is sound, an unclaimed table gets there after at
most as many passes as mutations are dropped, and from then on passes change nothing. -/
theorem isReady_settles (change : AvailabilityChange) (catalog : Catalog) (config : Config)
    (store : Memory) (tablets : List Metadata) (built : store.Built)
    (holds : Holds store change.table tablets)
    (online : catalog.tableState change.table = .online) (sound : config.flaw? = none) :
    (∀ elapsed after, change.isReady catalog config elapsed store = .ok 0 after →
      ∀ tablet ∈ tablets, change.range.Covers tablet.extent →
        after.cell? tablet.extent.metadataRow availabilityColumn =
          some (Bytes.ofText change.availability.text)) ∧
    (change.Unclaimed tablets → ∀ elapsed : Nat → Duration,
      ∃ short ≤ store.faults.count .dropped, ∃ stores hints,
        stores 0 = store ∧ change.Passes catalog config elapsed stores hints ∧
          ∀ round, hints round = 0 ↔ short ≤ round) ∧
    (∀ elapsed later after, change.isReady catalog config elapsed store = .ok 0 after →
      change.isReady catalog config later after = .ok 0 after) := by
  have zero : ∀ elapsed after, change.isReady catalog config elapsed store = .ok 0 after →
      after = store.submitAll (change.sent tablets) ∧
        ∀ tablet ∈ change.due tablets, change.landsIn store tablets tablet = true := by
    intro elapsed after answer
    obtain ⟨hint, ready, done, _⟩ := isReady_spec holds built.filed online sound elapsed
    rw [ready] at answer
    cases answer
    exact ⟨rfl, done.mp rfl⟩
  refine ⟨?_, ?_, ?_⟩
  · intro elapsed after answer tablet member covers
    obtain ⟨rfl, all⟩ := zero elapsed after answer
    exact cell?_of_all_landed holds all member covers
  · intro unclaimed elapsed
    exact exists_passes built holds online sound unclaimed elapsed
  · intro elapsed later after answer
    obtain ⟨rfl, all⟩ := zero elapsed after answer
    exact isReady_of_due_eq_nil (holds_after holds)
      (built.submitAll (change.sent tablets)).filed online sound (due_after all) later

theorem isReady_settles_two :
    let change : AvailabilityChange :=
      ⟨⟨"t"⟩, ⟨"space"⟩, .ofRows none true (some "m") true, .hosted⟩
    ∃ stores hints, stores 0 = twoTabletStore.addFault .dropped ∧
      change.Passes (({} : Catalog).setTableState ⟨"t"⟩ .online) {} (fun _ => ⟨0⟩) stores hints ∧
      hints 1 = 0 := by
  intro change
  have faults : (twoTabletStore.addFault .dropped).faults.count .dropped = 1 := rfl
  have settles := isReady_settles change (({} : Catalog).setTableState ⟨"t"⟩ .online) {}
    (twoTabletStore.addFault .dropped) twoTablets (built_twoTabletStore.addFault _)
    (holds_twoTablets.addFault _) (by decide) rfl
  have unclaimed : change.Unclaimed twoTablets := by
    intro tablet member covers differs
    simp only [twoTablets, List.mem_cons, List.not_mem_nil, or_false] at member
    rcases member with rfl | rfl
    · rfl
    · exact absurd (covers.stop "m" rfl) (by decide)
  obtain ⟨short, within, stores, hints, start, passes, settled⟩ :=
    settles.2.1 unclaimed fun _ => ⟨0⟩
  exact ⟨stores, hints, start, passes, (settled 1).mpr (faults ▸ within)⟩

end AvailabilityChange

end GuardedRows.Tablet
