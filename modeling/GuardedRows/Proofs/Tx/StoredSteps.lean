import GuardedRows.Proofs.Codec.Stored
import GuardedRows.Proofs.Tx.TypedView

/-!
# Steps that are pushed and decoded

A push that is answered as done has landed, whatever the store hides, because nothing was at
its position before. Its step is then at the highest position, so the top is the step that was
pushed, and a step whose form can be read is decoded to itself.
-/

set_option autoImplicit false

namespace GuardedRows.Tx

open StoreStep

theorem eq_ok_of_value? {α : Type} {step : StoreStep Memory α} {store : Memory} {value : α}
    (gives : step.value? store = some value) : ∃ later, step store = .ok value later := by
  unfold StoreStep.value? at gives
  cases ran : step store with
  | ok given later =>
      rw [ran] at gives
      cases gives
      exact ⟨later, rfl⟩
  | error error later =>
      rw [ran] at gives
      cases gives

theorem lt_succ_of_ne_last {position : UInt32} (below : position ≠ lastPosition) :
    position < position + 1 := by
  have least : position.toNat ≠ 4294967295 := fun same => below (UInt32.toNat_inj.mp same)
  have bound := position.toNat_lt
  rw [UInt32.lt_iff_toNat_lt, UInt32.toNat_add]
  have one : (1 : UInt32).toNat = 1 := rfl
  omega

namespace Handle

variable {store later : Memory} {handle : Handle} {limit : UInt32} {position : UInt32}

theorem lt_of_nextPosition {snapshot : Snapshot}
    (descending : snapshot.steps.Pairwise fun upper lower => lower.1 < upper.1)
    (next : nextPosition limit snapshot = some position) :
    ∀ entry ∈ snapshot.steps, entry.1 < position := by
  intro entry member
  unfold nextPosition at next
  split at next
  · cases next
  · cases shape : snapshot.steps with
    | nil =>
        rw [shape] at member
        cases member
    | cons top below =>
        rw [shape] at member descending
        rw [Snapshot.topPosition, shape, List.head?_cons, Option.map_some] at next
        have within : entry.1 ≤ top.1 := by
          rcases List.mem_cons.mp member with rfl | member
          · exact UInt32.le_refl _
          · exact UInt32.le_of_lt ((List.pairwise_cons.mp descending).1 entry member)
        dsimp only at next
        split at next
        · cases next
        · next room =>
            cases next
            exact UInt32.lt_of_le_of_lt within (lt_succ_of_ne_last room)

/-- A handle that reads its transaction finds a record that reads. -/
theorem exists_record_of_read {snapshot : Snapshot}
    (read : handle.read store = .ok snapshot later) :
    ∃ record, store.read handle.transaction.text = some record ∧
      snapshot.Describes record ∧ later = store := by
  unfold Handle.read at read
  cases found : store.read handle.transaction.text with
  | none =>
      rw [bind_of_ok (find_of_absent found)] at read
      cases read
  | some record =>
      cases parsed : Snapshot.ofRecord record with
      | error malformed =>
          have failed : find handle.transaction store =
              .error (.malformed malformed) store := by
            simp only [find, bind, EStateM.bind, RowStore.read, found, parsed]
            rfl
          rw [bind_of_error failed] at read
          cases read
      | ok shown =>
          rw [bind_of_ok (find_of_ofRecord found parsed)] at read
          obtain ⟨rfl, rfl⟩ := EStateM.Result.ok.inj read
          exact ⟨record, rfl, Snapshot.describes_iff.mpr parsed, rfl⟩

def stepEdits (handle : Handle) (position : UInt32) (step : Bytes) : List Edit :=
  handle.guarded [.requireStatus [.new, .inProgress], .putStep position step]

/-- The position was free before, so a step that is seen there afterwards has landed. -/
private theorem lands_of_confirms {record : Record} {snapshot : Snapshot} {edits : List Edit}
    (found : store.read handle.transaction.text = some record)
    (describes : snapshot.Describes record) (canonical : Canonical record)
    (next : nextPosition limit snapshot = some position)
    (confirmed : store.confirms (Edit.mutation handle.transaction edits)
      ((handle.transaction.snapshot?
          (store.submit (Edit.mutation handle.transaction edits)).2).any
        (·.steps.any (·.1 = position))) = true) :
    store.lands (Edit.mutation handle.transaction edits) = true := by
  cases lands : store.lands (Edit.mutation handle.transaction edits) with
  | true => rfl
  | false =>
      have same : handle.transaction.snapshot?
          (store.submit (Edit.mutation handle.transaction edits)).2 = some snapshot := by
        rw [Id.snapshot?, Edit.read_submit,
          if_neg fun both => Bool.noConfusion (lands.symm.trans both.2), found, readable,
          Option.bind_some, Snapshot.describes_iff.mp describes]
        rfl
      have free : snapshot.steps.any (·.1 = position) = false := by
        refine List.any_eq_false.mpr fun entry member => ?_
        have below := lt_of_nextPosition (describes.lists canonical).descending next entry member
        simpa using UInt32.ne_of_lt below
      rw [same, Option.any_some, free, Memory.confirms, lands, ite_self] at confirmed
      exact confirmed

/-- A push that is done has found a place above all steps, and what it sent has landed. -/
theorem landed_of_push {step : Bytes}
    (canonical : ∀ record, store.read handle.transaction.text = some record → Canonical record)
    (pushed : handle.push limit step store = .ok () later) :
    ∃ record snapshot position, store.read handle.transaction.text = some record ∧
      snapshot.Describes record ∧ nextPosition limit snapshot = some position ∧
      store.lands (Edit.mutation handle.transaction (handle.stepEdits position step)) = true ∧
      later = (store.submit (Edit.mutation handle.transaction
        (handle.stepEdits position step))).2 := by
  unfold push at pushed
  cases read : handle.read store with
  | error error reached =>
      rw [bind_of_error read] at pushed
      cases pushed
  | ok snapshot reached =>
      obtain ⟨record, found, describes, rfl⟩ := exists_record_of_read read
      rw [bind_of_ok read] at pushed
      cases next : nextPosition limit snapshot with
      | none =>
          rw [next] at pushed
          cases pushed
      | some position =>
          have settled := handle.settled_eq (.push position) (handle.stepEdits position step) rfl
            (fun current => current.any (·.steps.any (·.1 = position))) reached
          rw [next] at pushed
          rw [stepEdits] at settled
          dsimp only at pushed
          rw [settled] at pushed
          split at pushed
          · next confirmed =>
              have lands := lands_of_confirms found describes (canonical record found) next
                confirmed
              exact ⟨record, snapshot, position, found, describes, next, lands,
                (EStateM.Result.ok.inj pushed).2.symm⟩
          · cases pushed

/-- The edits of a push leave its step at the highest position. -/
private theorem top?_of_edited {step : Bytes} {before after : Snapshot}
    (descending : before.steps.Pairwise fun upper lower => lower.1 < upper.1)
    (next : nextPosition limit before = some position)
    (edited : Snapshot.Edited (handle.stepEdits position step) before after) :
    after.step? position = some step ∧ after.top? = some step := by
  have here : after.step? position = some step := by
    rw [edited.steps]
    simp [lastly, stepEdits, guarded, Edit.onStep]
  refine ⟨here, Snapshot.top?_of_highest edited.descending here fun other occupied => ?_⟩
  by_cases same : other = position
  · exact UInt32.le_of_eq same
  · have untouched : ∀ edit ∈ handle.stepEdits position step, edit.onStep other = none := by
      simp [stepEdits, guarded, Edit.onStep, Ne.symm same]
    rw [edited.steps, lastly_of_untouched untouched] at occupied
    obtain ⟨bytes, held⟩ := Option.isSome_iff_exists.mp occupied
    have member := (find?_position_iff descending).mp held
    exact UInt32.le_of_lt (lt_of_nextPosition descending next _ member)

theorem top_of_ofRecord {record : Record} {snapshot : Snapshot}
    (found : store.read handle.transaction.text = some record)
    (read : Snapshot.ofRecord record = .ok snapshot) :
    handle.top store = .ok snapshot.top? store := by
  have reads : handle.read store = .ok snapshot store :=
    bind_of_ok (find_of_ofRecord found read) _
  exact bind_of_ok reads _

/-- After a push that is done the pushed step is on top. -/
theorem top_of_push {step : Bytes}
    (filed : ∀ record, store.read handle.transaction.text = some record →
      record.row = handle.transaction.text ∧ Canonical record)
    (pushed : handle.push limit step store = .ok () later) :
    handle.top later = .ok (some step) later := by
  obtain ⟨record, before, position, found, describes, next, lands, rfl⟩ :=
    landed_of_push (fun record found => (filed record found).2) pushed
  obtain ⟨row, canonical⟩ := filed record found
  let mutation := Edit.mutation handle.transaction (handle.stepEdits position step)
  obtain ⟨after, shows, edited⟩ :
      ∃ after : Snapshot, after.Describes (mutation.written (some record)) ∧ _ :=
    describes.written canonical row
  obtain ⟨here, top⟩ := top?_of_edited (describes.lists canonical).descending next edited
  have kept : mutation.applyTo (some record) = some (mutation.written (some record)) := by
    refine if_neg fun empty => ?_
    have cell := Record.get?_of_isEmpty empty (stepColumn position)
    rw [← Snapshot.step?_eq (shows.lists canonical.written), here] at cell
    cases cell
  have left : (store.submit mutation).2.read handle.transaction.text =
      some (mutation.written (some record)) := by
    rw [Edit.read_submit, if_pos ⟨rfl, lands⟩, found, kept]
  rw [top_of_ofRecord left (Snapshot.describes_iff.mp shows), top]

theorem topStep_of_push {α : Type} [Codec α] {value : α} (reads : Codec.SelfDelimiting value)
    (filed : ∀ record, store.read handle.transaction.text = some record →
      record.row = handle.transaction.text ∧ Canonical record)
    (pushed : handle.push limit (Codec.encode value) store = .ok () later) :
    handle.topStep Codec.decode later = .ok (some value) later := by
  have decoded := reads.decode_append []
  rw [List.append_nil] at decoded
  unfold topStep
  rw [bind_of_ok (top_of_push filed pushed)]
  dsimp only
  rw [decoded]
  rfl

end Handle

/-! ## Stored values -/

open Codec Tablet

/-- Every stored value is read back from its form whatever stands behind it, and no part of the
form that ends early is read; so a change of availability that was pushed is what is found on
top. Lengths are written in eight bytes, which leaves room for all that fits into memory. -/
theorem stored_read_back :
    (∀ record : Record, (encode record).length < UInt64.size → SelfDelimiting record) ∧
    (∀ step : NamedStep, (encode step).length < UInt64.size → SelfDelimiting step) ∧
    (∀ change : AvailabilityChange, (encode change).length < UInt64.size →
      SelfDelimiting change) ∧
    (∀ id : Id, SelfDelimiting id) ∧
    (∀ operation : OperationId, SelfDelimiting operation) ∧
    (∀ status : Status, SelfDelimiting status) ∧
    (∀ reservation : Reservation, (encode reservation).length < UInt64.size →
      SelfDelimiting reservation) ∧
    (∀ extent : Extent, (encode extent).length < UInt64.size → SelfDelimiting extent) ∧
    (∀ range : RowRange, (encode range).length < UInt64.size → SelfDelimiting range) ∧
    (∀ config : Config, SelfDelimiting config) ∧
    (∀ change : AvailabilityChange, (encode change).length < UInt64.size →
      ∀ (limit : UInt32) (handle : Handle) (store later : Memory),
        (∀ record, store.read handle.transaction.text = some record →
          record.row = handle.transaction.text ∧ Canonical record) →
        handle.push limit (encode change) store = .ok () later →
        handle.topStep decode later = .ok (some change) later) ∧
    ∀ change : AvailabilityChange, (encode change).length < UInt64.size →
      ∀ (limit bound : UInt32) (events : List Event) (faults : List Fault) (handle : Handle)
        (later : Memory),
        handle.push limit (encode change)
            { (Clients.start.run bound events).store with faults } = .ok () later →
        handle.topStep decode later = .ok (some change) later := by
  refine ⟨fun _ => selfDelimiting, fun _ => selfDelimiting, fun _ => selfDelimiting,
    Id.selfDelimiting, OperationId.selfDelimiting, Status.selfDelimiting,
    fun _ => selfDelimiting, fun _ => selfDelimiting, fun _ => selfDelimiting,
    Config.selfDelimiting, ?_, ?_⟩
  · intro change fits limit handle store later filed pushed
    exact Handle.topStep_of_push (selfDelimiting fits) filed pushed
  · intro change fits limit bound events faults handle later pushed
    refine Handle.topStep_of_push (selfDelimiting fits) (fun record found => ?_) pushed
    have holds := Stacks.reached bound events faults
    exact ⟨holds.filed.row _ record found, holds.canonical found⟩

def hostRows : AvailabilityChange :=
  ⟨⟨"2"⟩, ⟨"a"⟩, .ofRows (some "m") true none true, .hosted⟩

/-- The step is found on top although the outcome of its push was hidden. -/
theorem stored_read_back_hostRows :
    (∀ tail, decode (encode hostRows ++ tail) = .ok hostRows) ∧
    ∃ later, holder.push 100 (encode hostRows)
        { (Clients.start.run 100 (reserved "worker")).store with faults := [.applied] } =
        .ok () later ∧
      holder.topStep decode later = .ok (some hostRows) later := by
  have fits : (encode hostRows).length < UInt64.size := by decide +kernel
  have done : (holder.push 100 (encode hostRows)).value?
      { (Clients.start.run 100 (reserved "worker")).store with faults := [.applied] } =
      some () := by
    decide +kernel
  obtain ⟨later, pushed⟩ := eq_ok_of_value? done
  obtain ⟨_, _, change, _, _, _, _, _, _, _, _, pushedFound⟩ := stored_read_back
  refine ⟨(change hostRows fits).decode_append, later, pushed, ?_⟩
  exact pushedFound hostRows fits 100 100 (reserved "worker") [.applied] holder later pushed

end GuardedRows.Tx
