import GuardedRows.Proofs.Tablet.Alteration
import GuardedRows.Proofs.Tablet.Creation

/-!
# Tables stay partitioned

A table is created as a partition of all rows into tablets. Whatever then runs on the store,
with any extents and any hidden outcomes, the table reads back as the tablets it was created
with: claims, releases, batches and passes alter records of tablets, but not which tablets
there are.
-/

set_option autoImplicit false

namespace GuardedRows.Tablet

/-! ## Running operations -/

/-- What operations do to the tablets of a store. Others may act while a pass is under way, so
what a pass submits for one tablet is also an act of its own. -/
inductive Act where
  | addFault (fault : Fault)
  | claim (extent : Extent) (operation : OperationId)
  | release (extent : Extent) (operation : OperationId)
  | pass (change : AvailabilityChange) (catalog : Catalog) (config : Config)
      (elapsed : Duration)
  | submission (change : AvailabilityChange) (extent : Extent)

def Act.perform (store : Memory) : Act → Memory
  | .addFault fault => store.addFault fault
  | .claim extent operation => (Tablet.claim extent operation).after store
  | .release extent operation => (Tablet.release extent operation).after store
  | .pass change catalog config elapsed => (change.isReady catalog config elapsed).after store
  | .submission change extent => (store.submit (Edit.mutation extent change.edits)).2

/-- The calls of a batch that reach its store. -/
inductive Batch.Call {σ ρ : Type} [RowStore σ] (consumer : Consumer σ ρ) :
    BatchStep σ ρ Unit → Prop where
  | submit (deferred : Bool) (extent : Extent) (edits : List Edit) (validator : Validator) :
      Call consumer (Batch.submit consumer deferred extent edits validator)
  | processReady : Call consumer (Batch.processReady consumer)
  | close (order : Arrival) : Call consumer (Batch.close consumer order)

/-- One step of what shares a store. Any number of batches may be open, and what is in flight in
the one that steps does not matter. What consumes its outcomes may send mutations of its
own. -/
inductive Managed : Memory → Memory → Prop where
  | act (store : Memory) (act : Act) : Managed store (act.perform store)
  | call {ρ : Type} {consumer : Consumer Memory ρ} {call : BatchStep Memory ρ Unit}
      (batch : Batch Memory ρ) :
      consumer.Moves (Memory.Sent Manages) → Batch.Call consumer call →
      Managed batch.store (batch.after call).store

/-- The stores that a run of such steps comes to. -/
inductive Reached (start : Memory) : Memory → Prop where
  | start : Reached start start
  | step {before later : Memory} : Reached start before → Managed before later →
      Reached start later

/-! ## What they send -/

theorem reads_memory {relation : Memory → Memory → Prop} [Std.Refl relation] :
    Reads relation where
  read _ := ⟨fun ran => by cases ran; exact Std.Refl.refl _, fun ran => by cases ran⟩
  scan _ := ⟨fun ran => by cases ran; exact Std.Refl.refl _, fun ran => by cases ran⟩

theorem submit_manages (extent : Extent) (edits : List Edit) :
    Moves (Memory.Sent Manages)
      (RowStore.submit (Edit.mutation extent edits) : StoreStep Memory Outcome) :=
  (StoreStep.Sends.submit (.edit extent edits)).moves

theorem Batch.Call.sent {ρ : Type} {consumer : Consumer Memory ρ}
    {call : BatchStep Memory ρ Unit} (made : Call consumer call)
    (consumes : consumer.Moves (Memory.Sent Manages)) (batch : Batch Memory ρ) :
    Memory.Sent Manages batch.store (batch.after call).store := by
  have moves : Moves (OnStore (Memory.Sent Manages)) call := by
    cases made with
    | submit deferred extent edits validator =>
        exact submit_moves reads_memory consumes (submit_manages extent edits) _ _
    | processReady => exact processReady_moves reads_memory consumes
    | close order => exact close_moves reads_memory consumes order
  exact moved_after moves batch

theorem Managed.sent {before later : Memory} (step : Managed before later) :
    (∃ fault, later = before.addFault fault) ∨ Memory.Sent Manages before later := by
  cases step with
  | call batch consumes made => exact .inr (made.sent consumes batch)
  | act store act =>
      cases act with
      | addFault fault => exact .inl ⟨fault, rfl⟩
      | claim extent operation =>
          have sends : StoreStep.Sends Manages (claim extent operation) :=
            Mutation.attempt_sends (.edit extent [.requireNoOperation, .putOperation operation])
          exact .inr (sends before)
      | release extent operation =>
          have sends : StoreStep.Sends Manages (release extent operation) :=
            Mutation.attempt_sends (.release extent operation)
          exact .inr (sends before)
      | pass change catalog config elapsed =>
          have moves : Moves (Memory.Sent Manages)
              (change.isReady catalog config elapsed : StoreStep Memory UInt64) :=
            AvailabilityChange.isReady_moves reads_memory
              (fun extent => submit_manages extent change.edits) catalog config elapsed
          exact .inr (StoreStep.sent_after moves before)
      | submission change extent => exact .inr (.more .nothing (.edit extent change.edits))

/-! ## The partition -/

theorem Chain.of_extents {table : TableId} {previous : Option String}
    {tablets others : List Metadata} (chain : Chain table previous tablets)
    (same : others.map Metadata.extent = tablets.map Metadata.extent) :
    Chain table previous others := by
  induction chain generalizing others with
  | last extent =>
      obtain ⟨other, rfl, own⟩ := List.map_eq_singleton_iff.mp same
      exact .last (own.trans extent)
  | next extent order _ ih =>
      obtain ⟨other, rest, rfl, own, same⟩ := List.map_eq_cons_iff.mp same
      exact .next (own.trans extent) order (ih same)

theorem exists_tablets {kept : Metadata → Prop} {tablets : List Metadata}
    (found : ∀ tablet ∈ tablets, ∃ other : Metadata, other.extent = tablet.extent ∧ kept other) :
    ∃ others : List Metadata, others.map Metadata.extent = tablets.map Metadata.extent ∧
      ∀ other ∈ others, kept other := by
  induction tablets with
  | nil => exact ⟨[], rfl, fun _ member => nomatch member⟩
  | cons tablet rest ih =>
      obtain ⟨other, own, holds⟩ := found tablet List.mem_cons_self
      obtain ⟨others, same, hold⟩ := ih fun later member => found later (.tail tablet member)
      refine ⟨other :: others, by rw [List.map_cons, List.map_cons, own, same], ?_⟩
      intro next member
      rcases List.mem_cons.mp member with rfl | member
      · exact holds
      · exact hold next member

/-- The store holds a table in tablets of the given extents. -/
structure Partitioned (store : Memory) (table : TableId) (extents : List Extent) : Prop where
  filed : store.Filed
  held : ∃ tablets : List Metadata, tablets.map Metadata.extent = extents ∧
    Holds store table tablets

namespace Partitioned

variable {store later : Memory} {table : TableId} {extents : List Extent}

theorem addFault (partitioned : Partitioned store table extents) (fault : Fault) :
    Partitioned (store.addFault fault) table extents := by
  obtain ⟨filed, tablets, same, holds⟩ := partitioned
  exact ⟨filed.addFault fault, tablets, same, holds.addFault fault⟩

theorem submit (partitioned : Partitioned store table extents) {mutation : Mutation}
    (manages : Manages mutation) : Partitioned (store.submit mutation).2 table extents := by
  obtain ⟨filed, tablets, same, holds⟩ := partitioned
  refine ⟨filed.submit mutation, ?_⟩
  have altered : ∀ tablet ∈ tablets, ∃ other : Metadata, other.extent = tablet.extent ∧
      Keeps (store.submit mutation).2 other := by
    intro tablet member
    obtain ⟨record, found, describes⟩ := holds.recorded tablet member
    have begun : record.get? previousRowColumn ≠ none := by simp [describes.previousEndRow]
    obtain ⟨changed, stored, altered⟩ := manages.read_submit filed found begun
    obtain ⟨other, own, describes⟩ := altered.describes describes
    exact ⟨other, own, changed, by rwa [own], describes⟩
  obtain ⟨others, extents, kept⟩ := exists_tablets altered
  refine ⟨others, extents.trans same, holds.named, holds.chain.of_extents extents, kept, ?_⟩
  intro row endRow stored parsed
  have before : (store.read row).isSome = true := by
    rw [Option.isSome_iff_ne_none]
    intro absent
    rw [manages.read_submit_eq_none absent] at stored
    cases stored
  obtain ⟨tablet, member, named⟩ := holds.complete row endRow before parsed
  have listed : tablet.extent ∈ others.map Metadata.extent :=
    extents ▸ List.mem_map_of_mem member
  obtain ⟨other, among, own⟩ := List.mem_map.mp listed
  exact ⟨other, among, own ▸ named⟩

theorem sent (partitioned : Partitioned store table extents)
    (sent : Memory.Sent Manages store later) : Partitioned later table extents := by
  induction sent with
  | nothing => exact partitioned
  | more _ manages ih => exact ih.submit manages

theorem managed (partitioned : Partitioned store table extents) (step : Managed store later) :
    Partitioned later table extents := by
  rcases step.sent with ⟨fault, rfl⟩ | sent
  · exact partitioned.addFault fault
  · exact partitioned.sent sent

theorem reached (partitioned : Partitioned store table extents)
    (reached : Reached store later) : Partitioned later table extents := by
  induction reached with
  | start => exact partitioned
  | step _ step ih => exact ih.managed step

theorem overlapping_eq (partitioned : Partitioned store table extents) :
    ∃ tablets : List Metadata, overlapping table none store = .ok (tablets.map .ok) store ∧
      tablets.map Metadata.extent = extents := by
  obtain ⟨filed, tablets, same, holds⟩ := partitioned
  refine ⟨tablets, ?_, same⟩
  rw [holds.overlapping_eq filed none]
  have all : tablets.filter (·.reaches none) = tablets :=
    List.filter_eq_self.mpr fun _ _ => rfl
  rw [all]

end Partitioned

/-- A table is created as a partition of all rows, cut at its split rows, and reads back as that
partition ever after. -/
theorem createTablets_partitions {store : Memory} (built : store.Built)
    (calm : store.faults = []) {table : TableId} (named : separator ∉ table.text.toList)
    (absent : ∀ endRow, store.read (metadataRow table endRow) = none) (splits : List String)
    (availability : Availability) :
    ∃ extents later, createTablets table splits availability store = .ok extents later ∧
      extents.Pairwise (fun left right => left.metadataRow < right.metadataRow) ∧
      (∀ extent ∈ extents, extent.table = table) ∧
      (∀ endRow, endRow ∈ extents.map Extent.endRow ↔ ∀ row ∈ endRow, row ∈ splits) ∧
      (∀ row, extents.countP (·.contains row) = 1) ∧
      ∀ final, Reached later final →
        ∃ tablets : List Metadata, overlapping table none final = .ok (tablets.map .ok) final ∧
          tablets.map Metadata.extent = extents := by
  obtain ⟨created, holds⟩ := createTablets_holds named splits availability calm absent
  have extents : ((extentsAt table splits).map (asCreated availability)).map Metadata.extent =
      extentsAt table splits := by
    rw [List.map_map]
    exact List.map_id _
  have filed := (built.submitAll ((extentsAt table splits).map (creation availability))).filed
  have partitioned : Partitioned (withTable store table splits availability) table
      (extentsAt table splits) := ⟨filed, _, extents, holds⟩
  refine ⟨extentsAt table splits, _, created, ?_, ?_, ?_, ?_, ?_⟩
  · have ascend := List.pairwise_map.mp holds.chain.rows_ascend
    exact ascend
  · intro extent member
    exact holds.chain.table_eq _ (List.mem_map_of_mem (f := asCreated availability) member)
  · intro endRow
    rw [extentsAt, endRows_extentsFrom]
    cases endRow with
    | none => simp
    | some row => simp [mem_distinctRows_iff]
  · intro row
    have counted := holds.chain.countP_contains row
    rw [List.countP_map] at counted
    exact counted
  · intro final reached
    exact (partitioned.reached reached).overlapping_eq

theorem createTablets_partitions_claimed :
    ∃ later, createTablets ⟨"u"⟩ ["m", "", "m"] .onDemand twoTabletStore =
        .ok [⟨⟨"u"⟩, some "", none⟩, ⟨⟨"u"⟩, some "m", some ""⟩, ⟨⟨"u"⟩, none, some "m"⟩] later ∧
      ∃ tablets : List Metadata,
        overlapping ⟨"u"⟩ none ((claim ⟨⟨"u"⟩, some "m", some ""⟩ splitOperation).after later) =
          .ok (tablets.map .ok) ((claim ⟨⟨"u"⟩, some "m", some ""⟩ splitOperation).after later) ∧
        tablets.map Metadata.extent =
          [⟨⟨"u"⟩, some "", none⟩, ⟨⟨"u"⟩, some "m", some ""⟩, ⟨⟨"u"⟩, none, some "m"⟩] := by
  have absent : ∀ endRow, twoTabletStore.read (metadataRow ⟨"u"⟩ endRow) = none := by
    intro endRow
    refine Option.not_isSome_iff_eq_none.mp fun stored => ?_
    have own : parseMetadataRow (metadataRow ⟨"u"⟩ endRow) = .ok (⟨"u"⟩, endRow) :=
      parseMetadataRow_metadataRow (by decide) endRow
    rcases eq_of_isSome_twoTabletStore stored with same | same
    · rw [same, parseMetadataRow_metadataRow (by decide)] at own
      simp at own
    · rw [same, parseMetadataRow_metadataRow (by decide)] at own
      simp at own
  obtain ⟨extents, later, created, _, _, _, _, ever⟩ :=
    createTablets_partitions built_twoTabletStore rfl (by decide) absent ["m", "", "m"] .onDemand
  have listed : extents =
      [⟨⟨"u"⟩, some "", none⟩, ⟨⟨"u"⟩, some "m", some ""⟩, ⟨⟨"u"⟩, none, some "m"⟩] := by
    cases created
    rfl
  subst listed
  exact ⟨later, created, ever _ (.step .start (.act later (.claim _ splitOperation)))⟩

end GuardedRows.Tablet
