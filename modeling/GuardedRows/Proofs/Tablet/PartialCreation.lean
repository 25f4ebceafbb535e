import GuardedRows.Proofs.Store.Scan
import GuardedRows.Proofs.Tablet.Creation

/-!
# Creations that stop on the way

The records of a new table are written one after another, each only where no row is stored, and
the first that is not told to be accepted ends the work. So whatever the store holds and
whatever it hides, what is new afterwards are the first of the tablets, and nothing that was
stored has changed.
-/

set_option autoImplicit false

namespace GuardedRows.Tablet

variable {availability : Availability} {store between later : Memory}

/-! ## Rows that creations add -/

/-- The record of a tablet as its creation writes it. -/
def createdRecord (availability : Availability) (extent : Extent) : Record :=
  .ofList extent.metadataRow [
    (previousRowColumn, encodePreviousRow extent.previousEndRow),
    (availabilityColumn, Bytes.ofText availability.text)]

/-- A later store has kept every row of a store, and the rows it has besides are those of some
new tablets. -/
structure Adds (availability : Availability) (extents : List Extent)
    (store later : Memory) : Prop where
  kept : ∀ row record, store.read row = some record → later.read row = some record
  new : ∀ row, store.read row = none ∧ later.read row ≠ none ↔
    ∃ extent ∈ extents, extent.metadataRow = row
  record : ∀ extent ∈ extents,
    later.read extent.metadataRow = some (createdRecord availability extent)

namespace Adds

theorem of_same (same : ∀ row, later.read row = store.read row) :
    Adds availability [] store later where
  kept row record found := (same row).trans found
  new row := by
    rw [same row]
    constructor
    · intro both
      exact absurd both.1 both.2
    · rintro ⟨_, member, _⟩
      cases member
  record _ member := nomatch member

theorem append {first second : List Extent} (before : Adds availability first store between)
    (after : Adds availability second between later) :
    Adds availability (first ++ second) store later where
  kept row record found := after.kept row record (before.kept row record found)
  new row := by
    constructor
    · intro both
      obtain ⟨absent, stored⟩ := both
      cases found : between.read row with
      | none =>
          obtain ⟨extent, member, named⟩ := (after.new row).mp ⟨found, stored⟩
          exact ⟨extent, List.mem_append_right _ member, named⟩
      | some record =>
          obtain ⟨extent, member, named⟩ := (before.new row).mp ⟨absent, by simp [found]⟩
          exact ⟨extent, List.mem_append_left _ member, named⟩
    · rintro ⟨extent, member, rfl⟩
      rcases List.mem_append.mp member with member | member
      · refine ⟨((before.new _).mpr ⟨extent, member, rfl⟩).1, ?_⟩
        rw [after.kept _ _ (before.record extent member)]
        exact Option.some_ne_none _
      · obtain ⟨absent, stored⟩ := (after.new _).mpr ⟨extent, member, rfl⟩
        refine ⟨?_, stored⟩
        cases found : store.read extent.metadataRow with
        | none => rfl
        | some record => rw [before.kept _ _ found] at absent; cases absent
  record extent member := by
    rcases List.mem_append.mp member with member | member
    · exact after.kept _ _ (before.record extent member)
    · exact after.record extent member

end Adds

/-- A creation adds its own row if it lands, and nothing otherwise. -/
theorem adds_creation (filed : store.Filed) (availability : Availability) (extent : Extent) :
    Adds availability (if store.lands (creation availability extent) then [extent] else [])
      store (store.submit (creation availability extent)).2 := by
  cases landed : store.lands (creation availability extent) with
  | false => exact .of_same (Memory.read_of_missed landed)
  | true =>
      have absent : store.read extent.metadataRow = none :=
        (filed.rowAbsent_iff _).mp (Memory.holds_of_lands landed List.mem_cons_self)
      have made : (store.submit (creation availability extent)).2.read extent.metadataRow =
          some (createdRecord availability extent) := by
        rw [Memory.read_submit, if_pos ⟨rfl, landed⟩]
        change (creation availability extent).applyTo (store.read extent.metadataRow) = _
        rw [absent]
        exact if_neg (Bool.eq_false_iff.mp (Record.isEmpty_put _ availabilityColumn _))
      have others : ∀ row, row ≠ extent.metadataRow →
          (store.submit (creation availability extent)).2.read row = store.read row := by
        intro row apart
        rw [Memory.read_submit, if_neg fun both => apart both.1]
      refine ⟨fun row record found => ?_, fun row => ?_, fun other member => ?_⟩
      · rw [others row fun same => by rw [same, absent] at found; cases found]
        exact found
      · by_cases same : row = extent.metadataRow
        · subst same
          simp [absent, made]
        · simp [others row same, Ne.symm same]
      · obtain rfl := List.mem_singleton.mp member
        exact made

/-! ## The work -/

/-- Whether all of some creations, one after another, are told to be accepted. -/
def AllAccepted (availability : Availability) (store : Memory) (extents : List Extent) : Prop :=
  ∀ answer ∈ store.answers (extents.map (creation availability)), answer.2 = .accepted

instance (availability : Availability) (store : Memory) (extents : List Extent) :
    Decidable (AllAccepted availability store extents) :=
  inferInstanceAs (Decidable (∀ answer ∈ _, _))

theorem allAccepted_cons {extent : Extent} {rest : List Extent} :
    AllAccepted availability store (extent :: rest) ↔
      (store.submit (creation availability extent)).1 = .accepted ∧
        AllAccepted availability (store.submit (creation availability extent)).2 rest :=
  List.forall_mem_cons

/-- The creations that are sent are the first ones, up to one that is not accepted, and the rows
that they add are those of the first tablets. -/
theorem createEach_adds (filed : store.Filed) (availability : Availability)
    (extents : List Extent) :
    ∃ sent made : List Extent, made <+: sent ∧ sent <+: extents ∧
      (createEach availability extents).after store =
        store.submitAll (sent.map (creation availability)) ∧
      Adds availability made store ((createEach availability extents).after store) ∧
      (createEach availability extents).value? store =
        (if AllAccepted availability store sent then some () else none) ∧
      (AllAccepted availability store sent → made = extents) := by
  induction extents generalizing store with
  | nil =>
      exact ⟨[], [], List.prefix_refl _, List.prefix_refl _, rfl, .of_same fun _ => rfl, rfl,
        fun _ => rfl⟩
  | cons extent rest ih =>
      have step := adds_creation filed availability extent
      have sends : (creation availability extent).enforce store = _ := Mutation.enforce_eq rfl
      by_cases accepted : (store.submit (creation availability extent)).1 = .accepted
      · rw [if_pos (Memory.lands_of_accepted accepted)] at step
        rw [if_pos accepted] at sends
        obtain ⟨sent, made, first, among, left, adds, value, complete⟩ := ih (filed.submit _)
        have ran : createEach availability (extent :: rest) store =
            createEach availability rest (store.submit (creation availability extent)).2 := by
          rw [createEach, StoreStep.bind_of_ok sends]
        refine ⟨extent :: sent, extent :: made, (List.prefix_cons_inj extent).mpr first,
          (List.prefix_cons_inj extent).mpr among, ?_, ?_, ?_, ?_⟩
        · rw [StoreStep.after, ran]
          exact left
        · rw [StoreStep.after, ran]
          exact step.append adds
        · simp only [StoreStep.value?, ran, allAccepted_cons, accepted, true_and]
          exact value
        · intro all
          rw [complete (allAccepted_cons.mp all).2]
      · rw [if_neg accepted] at sends
        have refused : ¬ AllAccepted availability store [extent] :=
          fun all => accepted (allAccepted_cons.mp all).1
        have ran : createEach availability (extent :: rest) store = _ :=
          StoreStep.bind_of_error sends _
        refine ⟨[extent], if store.lands (creation availability extent) then [extent] else [], ?_,
          List.prefix_append [extent] rest, ?_, ?_, ?_, fun all => absurd all refused⟩
        · split
          · exact List.prefix_refl _
          · exact List.nil_prefix
        · rw [StoreStep.after, ran]
          rfl
        · rw [StoreStep.after, ran]
          exact step
        · rw [StoreStep.value?, ran, if_neg refused]

theorem extentsFrom_eq (table : TableId) (previous : Option String) (ends : List String) :
    extentsFrom table previous ends =
      List.zipWith (fun begin last => ⟨table, last, begin⟩) (previous :: ends.map some)
        (ends.map some ++ [none]) := by
  induction ends generalizing previous with
  | nil => rfl
  | cons endRow rest ih => rw [extentsFrom, ih]; rfl

/-- The tablets of a new table end at the distinct split rows in ascending order, each begins
where the one before it ends, and the last one has no end. Whatever a store holds and whatever
it hides, creating them changes no row that is stored, and the rows that are new afterwards are
the records of the first of the tablets. The work succeeds just if every creation that it sent
was told to be accepted, and then these are all of the tablets. -/
theorem createTablets_adds (filed : store.Filed) (table : TableId) (splits : List String)
    (availability : Availability) :
    let run : StoreStep Memory (List Extent) := createTablets table splits availability
    ∃ (ends : List String) (extents sent made : List Extent),
      ends.Pairwise (· < ·) ∧ (∀ row, row ∈ ends ↔ row ∈ splits) ∧
      extents = List.zipWith (fun previous endRow => ⟨table, endRow, previous⟩)
        (none :: ends.map some) (ends.map some ++ [none]) ∧
      made <+: sent ∧ sent <+: extents ∧
      run.after store = store.submitAll (sent.map (creation availability)) ∧
      Adds availability made store (run.after store) ∧
      run.value? store = (if AllAccepted availability store sent then some extents else none) ∧
      (AllAccepted availability store sent → made = extents) := by
  intro run
  obtain ⟨sent, made, first, among, left, adds, value, complete⟩ :=
    createEach_adds filed availability (extentsAt table splits)
  have after : run.after store =
      (createEach availability (extentsAt table splits)).after store :=
    StoreStep.after_bind_of_still (fun _ _ => rfl) store
  refine ⟨distinctRows splits, extentsAt table splits, sent, made,
    distinctRows_ascend splits, fun row => mem_distinctRows_iff,
    extentsFrom_eq table none (distinctRows splits), first, among, ?_, ?_, ?_, complete⟩
  · rw [after, left]
  · rw [after]
    exact adds
  · have valued : run.value? store = _ :=
      StoreStep.value?_bind_pure (createEach availability (extentsAt table splits))
        (fun _ => extentsAt table splits) store
    rw [valued, value]
    split <;> rfl

/-- The first of three tablets is recorded, but the store does not say so. -/
theorem createTablets_adds_hidden :
    let run : StoreStep Memory (List Extent) := createTablets ⟨"u"⟩ ["m", "c", "m"] .hosted
    let store := twoTabletStore.addFault .applied
    run.value? store = none ∧ ∃ made : List Extent, Adds .hosted made store (run.after store) ∧
      ∃ extent ∈ made, extent.metadataRow = "u;c" := by
  intro run store
  obtain ⟨_, _, _, made, _, _, _, _, _, _, adds, _, _⟩ :=
    createTablets_adds (built_twoTabletStore.addFault .applied).filed ⟨"u"⟩
      ["m", "c", "m"] .hosted
  exact ⟨by decide +kernel, made, adds, (adds.new "u;c").mp (by decide +kernel)⟩

end GuardedRows.Tablet
