import GuardedRows.Proofs.Store.Transparency
import GuardedRows.Proofs.Tx.Exclusion
import GuardedRows.Proofs.Tx.Reading
import GuardedRows.Proofs.Tx.Register
import GuardedRows.Proofs.Tx.StackRun

/-!
# What becomes of reservations

A reservation is read back from its text to settle a hidden outcome, and it is read back as
another one if there is a slash in the node of its lock. So for such a node a reservation that
was made unseen is answered as none, and a release that was dropped unseen as done. In every
other case the answers are what the record holds.
-/

set_option autoImplicit false

namespace GuardedRows

namespace Tx

open StoreStep

/-! ## Reading a reservation back -/

theorem Stacks.reservation?_eq_some_iff {limit : UInt32} {piles : Id → List Bytes}
    {store : Memory} (holds : Stacks limit piles store) {id : Id} {reservation : Reservation} :
    id.reservation? store = some reservation ↔
      store.cell? id.text reservationColumn = some (Bytes.ofText reservation.text) ∧
        '/' ∉ reservation.lock.node.toList := by
  rw [← Reservation.parse_text_iff]
  cases cell : store.cell? id.text reservationColumn with
  | none =>
      rw [holds.reservation?_of_no_cell cell]
      simp
  | some bytes =>
      obtain ⟨stored, rfl⟩ := holds.reservation id bytes cell
      obtain ⟨read, parsed, reads⟩ := holds.reservation?_of_cell cell
      rw [reads]
      constructor
      · rintro ⟨⟩
        have text := Reservation.text_of_parse_text parsed
        rw [text]
        exact ⟨rfl, parsed⟩
      · rintro ⟨same, clean⟩
        have text := Bytes.ofText_injective (Option.some.inj same)
        rw [← text, parsed] at clean
        rw [Except.ok.inj clean]

/-! ## Reserving -/

/-- A try to reserve answers with the handle exactly if the record holds its reservation
afterwards, and changes no row if it answers with none. -/
structure ReserveTold (id : Id) (lock : LockId) (drawn : Uuid) (store : Memory) : Prop where
  made : (tryReserve id lock drawn).value? store = some (some ⟨id, ⟨lock, drawn⟩⟩) ↔
    Handle.Matches ⟨id, ⟨lock, drawn⟩⟩ ((tryReserve id lock drawn).after store)
  refused : (tryReserve id lock drawn).value? store = some none ↔
    ¬Handle.Matches ⟨id, ⟨lock, drawn⟩⟩ ((tryReserve id lock drawn).after store)
  rows : (tryReserve id lock drawn).value? store = some none →
    ((tryReserve id lock drawn).after store).rows = store.rows

section Reserve

variable {limit : UInt32} {piles : Id → List Bytes} {store : Memory} {id : Id} {lock : LockId}
  {drawn : Uuid} {uuids : List Uuid}

theorem Registered.lands_reserve_iff (registered : Registered uuids store)
    (reservation : Reservation) :
    store.lands (Edit.mutation id (reserveEdits reservation)) = true ↔
      store.faults.head? ≠ some .dropped ∧ store.read id.text ≠ none ∧
        store.cell? id.text reservationColumn = none := by
  have conditions : (Edit.mutation id (reserveEdits reservation)).conditions =
      [.oneOf statusColumn (Status.all.map fun status => Bytes.ofText status.text),
        .absent reservationColumn] := rfl
  constructor
  · intro landed
    obtain ⟨kept, _⟩ := Bool.and_eq_true_iff.mp landed
    have named := Memory.holds_of_lands landed (conditions.symm ▸ List.mem_cons_self)
    have free := Memory.holds_of_lands landed
      (conditions.symm ▸ List.mem_cons_of_mem _ List.mem_cons_self)
    refine ⟨bne_iff_ne.mp kept, ?_, Condition.holds_absent.mp free⟩
    exact Option.isSome_iff_ne_none.mp (Condition.isSome_of_holds_oneOf named)
  · rintro ⟨kept, stored, free⟩
    obtain ⟨status, cell⟩ := registered.status id.text (Option.isSome_iff_ne_none.mpr stored)
    have known : status ∈ Status.all := by cases status <;> decide
    have named : (Condition.oneOf statusColumn
        (Status.all.map fun status => Bytes.ofText status.text)).holds
          (store.read id.text) = true := by
      refine (Option.any_eq_true _ _).mpr ⟨Bytes.ofText status.text, cell, ?_⟩
      exact List.contains_iff_mem.mpr (List.mem_map_of_mem known)
    have both : (Edit.mutation id (reserveEdits reservation)).conditionsHold
        (store.read id.text) = true := by
      unfold Mutation.conditionsHold
      rw [conditions]
      simp [named, Condition.holds_absent.mpr free]
    exact Bool.and_eq_true_iff.mpr ⟨bne_iff_ne.mpr kept, both⟩

/-- Whether a try to reserve is taken to be accepted. -/
def reserveConfirmed (id : Id) (reservation : Reservation) (store : Memory) : Bool :=
  store.confirms (Edit.mutation id (reserveEdits reservation))
    (id.reservation? (store.submit (Edit.mutation id (reserveEdits reservation))).2 =
      some reservation)

/-- A try to reserve answers with the handle or with none, and fails in no case. -/
theorem value?_tryReserve (id : Id) (lock : LockId) (drawn : Uuid) (store : Memory) :
    (tryReserve id lock drawn).value? store =
        some (if reserveConfirmed id ⟨lock, drawn⟩ store then some ⟨id, ⟨lock, drawn⟩⟩
          else none) ∧
      (tryReserve id lock drawn).after store =
        (store.submit (Edit.mutation id (reserveEdits ⟨lock, drawn⟩))).2 := by
  have ran : tryReserve id lock drawn store =
      if reserveConfirmed id ⟨lock, drawn⟩ store then .ok (some ⟨id, ⟨lock, drawn⟩⟩) _
      else .ok none _ := tryReserve_eq id lock drawn store
  unfold StoreStep.value? StoreStep.after
  rw [ran]
  cases reserveConfirmed id ⟨lock, drawn⟩ store <;> exact ⟨rfl, rfl⟩

theorem matches_of_reserved {reservation : Reservation}
    (landed : store.lands (Edit.mutation id (reserveEdits reservation)) = true) :
    Handle.Matches ⟨id, reservation⟩
      (store.submit (Edit.mutation id (reserveEdits reservation))).2 := by
  unfold Handle.Matches
  rw [Edit.cell?_submit, if_pos ⟨rfl, landed⟩]
  rfl

theorem reserveTold_iff :
    ReserveTold id lock drawn store ↔
      (reserveConfirmed id ⟨lock, drawn⟩ store = true ↔
        Handle.Matches ⟨id, ⟨lock, drawn⟩⟩
          (store.submit (Edit.mutation id (reserveEdits ⟨lock, drawn⟩))).2) := by
  obtain ⟨value, after⟩ := value?_tryReserve id lock drawn store
  cases confirmed : reserveConfirmed id ⟨lock, drawn⟩ store with
  | true =>
      rw [confirmed, if_pos rfl] at value
      constructor
      · intro told
        have made := told.made.mp value
        rw [after] at made
        exact iff_of_true rfl made
      · intro agrees
        have made := agrees.mp rfl
        rw [← after] at made
        exact ⟨iff_of_true value made, by simp [value, made], by simp [value]⟩
  | false =>
      rw [confirmed, if_neg Bool.false_ne_true] at value
      constructor
      · intro told
        have refused := told.refused.mp value
        rw [after] at refused
        exact iff_of_false Bool.false_ne_true refused
      · intro agrees
        have refused := mt agrees.mpr Bool.false_ne_true
        have missed : store.lands (Edit.mutation id (reserveEdits ⟨lock, drawn⟩)) = false :=
          Bool.eq_false_iff.mpr fun landed => refused (matches_of_reserved landed)
        have rows := Memory.rows_of_missed missed
        rw [← after] at refused rows
        exact ⟨by simp [value, refused], iff_of_true value refused, fun _ => rows⟩

/-- Unless it is told what became of a reservation, the text in the record decides. -/
theorem Stacks.reserveConfirmed_iff (holds : Stacks limit piles store)
    (reservation : Reservation) :
    reserveConfirmed id reservation store = true ↔
      (store.faults = [] ∧
        store.lands (Edit.mutation id (reserveEdits reservation)) = true) ∨
      (store.faults ≠ [] ∧ '/' ∉ reservation.lock.node.toList ∧
        Handle.Matches ⟨id, reservation⟩
          (store.submit (Edit.mutation id (reserveEdits reservation))).2) := by
  have later : Stacks limit piles
      (store.submit (Edit.mutation id (reserveEdits reservation))).2 :=
    holds.submit_of_leavesSteps rfl
  unfold reserveConfirmed Memory.confirms
  by_cases told : store.faults = []
  · simp [told]
  · rw [if_neg told, decide_eq_true_iff, later.reservation?_eq_some_iff]
    constructor
    · rintro ⟨stored, clean⟩
      exact .inr ⟨told, clean, stored⟩
    · rintro (⟨none, _⟩ | ⟨_, clean, stored⟩)
      · exact absurd none told
      · exact ⟨stored, clean⟩

/-- What a try to reserve answers holds, for a reservation that is not stored yet, unless it is
made unseen and is read back as another. -/
theorem Stacks.reserveTold_of_new (holds : Stacks limit piles store)
    (registered : Registered uuids store) (new : ¬Handle.Matches ⟨id, ⟨lock, drawn⟩⟩ store) :
    ReserveTold id lock drawn store ↔
      '/' ∉ lock.node.toList ∨ store.faults.head? ≠ some .applied ∨
        store.read id.text = none ∨ store.cell? id.text reservationColumn ≠ none := by
  rw [reserveTold_iff, holds.reserveConfirmed_iff]
  cases landed : store.lands (Edit.mutation id (reserveEdits ⟨lock, drawn⟩)) with
  | true =>
      obtain ⟨kept, stored, free⟩ := (registered.lands_reserve_iff _).mp landed
      have made := matches_of_reserved landed
      cases faults : store.faults with
      | nil => simp [made]
      | cons fault rest =>
          have hidden : fault = .applied := by
            cases fault with
            | applied => rfl
            | dropped => exact absurd (congrArg List.head? faults) kept
          simp [made, stored, free, hidden]
  | false =>
      have lost := mt (Handle.matches_of_missed landed).mp new
      have missed : store.faults.head? ≠ some .applied ∨ store.read id.text = none ∨
          store.cell? id.text reservationColumn ≠ none := by
        by_cases first : store.faults.head? = some .applied
        · by_cases absent : store.read id.text = none
          · exact .inr (.inl absent)
          · refine .inr (.inr fun free => ?_)
            have lands := (registered.lands_reserve_iff ⟨lock, drawn⟩).mpr
              ⟨by simp [first], absent, free⟩
            cases landed.symm.trans lands
        · exact .inl first
      simp [lost, missed]

/-- For a reservation that is stored already, the answer holds only if it is hidden. -/
theorem Stacks.reserveTold_of_stored (holds : Stacks limit piles store)
    (registered : Registered uuids store) (stored : Handle.Matches ⟨id, ⟨lock, drawn⟩⟩ store) :
    ReserveTold id lock drawn store ↔ '/' ∉ lock.node.toList ∧ store.faults ≠ [] := by
  have missed : store.lands (Edit.mutation id (reserveEdits ⟨lock, drawn⟩)) = false := by
    refine Bool.eq_false_iff.mpr fun landed => ?_
    obtain ⟨_, _, free⟩ := (registered.lands_reserve_iff _).mp landed
    cases free.symm.trans stored
  have still := (Handle.matches_of_missed missed).mpr stored
  rw [reserveTold_iff, holds.reserveConfirmed_iff, missed]
  simp [still, and_comm]

end Reserve

/-! ## Giving back -/

/-- A release is answered as done exactly if the record no longer holds the reservation. -/
def ReleaseTold (handle : Handle) (store : Memory) : Prop :=
  handle.unreserve.value? store = some () ↔ ¬handle.Matches (handle.unreserve.after store)

section Release

variable {limit : UInt32} {piles : Id → List Bytes} {store : Memory} {handle : Handle}

theorem Handle.Matches.lands_release_iff (stored : handle.Matches store) :
    store.lands (Edit.mutation handle.transaction handle.releaseEdits) = true ↔
      store.faults.head? ≠ some .dropped :=
  (Handle.lands_iff rfl rfl).trans (and_iff_left stored)

/-- Whether a release is taken to be accepted. -/
def releaseConfirmed (handle : Handle) (store : Memory) : Bool :=
  store.confirms (Edit.mutation handle.transaction handle.releaseEdits)
    (handle.transaction.reservation? (store.submit
      (Edit.mutation handle.transaction handle.releaseEdits)).2 ≠ some handle.reservation)

theorem releaseTold_iff :
    ReleaseTold handle store ↔
      (releaseConfirmed handle store = true ↔
        ¬handle.Matches (store.submit
          (Edit.mutation handle.transaction handle.releaseEdits)).2) := by
  have ran : handle.unreserve store =
      if releaseConfirmed handle store then .ok () _ else .error _ _ := handle.unreserve_eq store
  unfold ReleaseTold
  rw [StoreStep.value?_of_ite ran, StoreStep.after_of_ite ran]
  cases releaseConfirmed handle store <;> simp

theorem Stacks.releaseConfirmed_iff (holds : Stacks limit piles store) :
    releaseConfirmed handle store = true ↔
      (store.faults = [] ∧
        store.lands (Edit.mutation handle.transaction handle.releaseEdits) = true) ∨
      (store.faults ≠ [] ∧ ¬('/' ∉ handle.reservation.lock.node.toList ∧
        handle.Matches (store.submit
          (Edit.mutation handle.transaction handle.releaseEdits)).2)) := by
  have later : Stacks limit piles
      (store.submit (Edit.mutation handle.transaction handle.releaseEdits)).2 :=
    holds.submit_of_leavesSteps rfl
  unfold releaseConfirmed Memory.confirms
  by_cases told : store.faults = []
  · simp [told]
  · rw [if_neg told, decide_eq_true_iff, ne_eq, later.reservation?_eq_some_iff]
    constructor
    · intro other
      exact .inr ⟨told, fun ⟨clean, stored⟩ => other ⟨stored, clean⟩⟩
    · rintro (⟨none, _⟩ | ⟨_, other⟩)
      · exact absurd none told
      · exact fun ⟨stored, clean⟩ => other ⟨clean, stored⟩

/-- The answer to a release holds unless the release is dropped unseen and the reservation is
read back as another. -/
theorem Stacks.releaseTold_of_stored (holds : Stacks limit piles store)
    (stored : handle.Matches store) :
    ReleaseTold handle store ↔
      '/' ∉ handle.reservation.lock.node.toList ∨ store.faults.head? ≠ some .dropped := by
  have cell := Edit.cell?_submit store handle.transaction handle.releaseEdits
    handle.transaction.text reservationColumn
  rw [releaseTold_iff, holds.releaseConfirmed_iff]
  cases landed : store.lands (Edit.mutation handle.transaction handle.releaseEdits) with
  | true =>
      have kept := stored.lands_release_iff.mp landed
      have lost : ¬handle.Matches (store.submit (Edit.mutation handle.transaction
          handle.releaseEdits)).2 := by
        unfold Handle.Matches
        rw [cell, if_pos ⟨rfl, landed⟩]
        exact nofun
      by_cases told : store.faults = [] <;> simp [lost, kept, told]
  | false =>
      have dropped : store.faults.head? = some .dropped := by
        refine Classical.byContradiction fun kept => ?_
        cases landed.symm.trans (stored.lands_release_iff.mpr kept)
      have hidden : store.faults ≠ [] := by
        intro none
        rw [none] at dropped
        cases dropped
      have still : handle.Matches (store.submit (Edit.mutation handle.transaction
          handle.releaseEdits)).2 := (Handle.matches_of_missed landed).mpr stored
      simp [still, dropped, hidden]

end Release

/-! ## Runs -/

/-- Over every store that a run can leave, with any faults in wait: just when the answers to a
try to reserve and to a release through a handle whose reservation is stored say what the
record holds. -/
theorem Clients.reservations_told_iff (limit : UInt32) (events : List Event)
    (faults : List Fault) :
    let store : Memory := { (start.run limit events).store with faults }
    (∀ (id : Id) (lock : LockId) (drawn : Uuid),
      (drawn ∉ Tx.drawn events → ¬Handle.Matches ⟨id, ⟨lock, drawn⟩⟩ store) ∧
      (¬Handle.Matches ⟨id, ⟨lock, drawn⟩⟩ store →
        (ReserveTold id lock drawn store ↔
          '/' ∉ lock.node.toList ∨ faults.head? ≠ some .applied ∨
            store.read id.text = none ∨ store.cell? id.text reservationColumn ≠ none)) ∧
      (Handle.Matches ⟨id, ⟨lock, drawn⟩⟩ store →
        (ReserveTold id lock drawn store ↔ '/' ∉ lock.node.toList ∧ faults ≠ []))) ∧
    ∀ handle : Handle, handle.Matches store →
      (ReleaseTold handle store ↔
        '/' ∉ handle.reservation.lock.node.toList ∨ faults.head? ≠ some .dropped) := by
  intro store
  have holds : Stacks limit _ store := Stacks.reached limit events faults
  have registered : Registered (Tx.drawn events) store := Registered.reached limit events faults
  refine ⟨fun id lock drawn => ⟨fun fresh => ?_, fun new => ?_, fun stored => ?_⟩,
    fun handle stored => ?_⟩
  · have lost : ¬Handle.Matches ⟨id, ⟨lock, drawn⟩⟩ (start.run limit events).store :=
      lost_run fresh nofun
    exact lost
  · exact holds.reserveTold_of_new registered new
  · exact holds.reserveTold_of_stored registered stored
  · exact holds.releaseTold_of_stored stored

def slashed : LockId := ⟨"p", "a/b", 1⟩

def reservedUnseen : List Event :=
  [.request (.create .user (uuidOf 1) 0), .fault .applied]

def keptUnseen : List Event :=
  [.request (.create .user (uuidOf 1) 0),
    .request (.tryReserve ⟨.user, uuidOf 1⟩ slashed (uuidOf 2) "worker"), .fault .dropped]

/-- With a slash in the node a reservation is left behind that nobody owns, and one is taken
to be given back that is still there. -/
theorem Clients.reservations_untold_slashed :
    ¬ReserveTold ⟨.user, uuidOf 1⟩ slashed (uuidOf 2) (start.run 100 reservedUnseen).store ∧
    ¬ReleaseTold ⟨⟨.user, uuidOf 1⟩, ⟨slashed, uuidOf 2⟩⟩ (start.run 100 keptUnseen).store := by
  let id : Id := ⟨.user, uuidOf 1⟩
  let handle : Handle := ⟨id, ⟨slashed, uuidOf 2⟩⟩
  constructor
  · intro told
    have reserved : (tryReserve id slashed (uuidOf 2)).value?
          (start.run 100 reservedUnseen).store = some none ∧
        ((tryReserve id slashed (uuidOf 2)).after (start.run 100 reservedUnseen).store).cell?
          id.text reservationColumn = some (Bytes.ofText handle.reservation.text) := by
      decide +kernel
    exact told.refused.mp reserved.1 reserved.2
  · intro told
    have released : handle.unreserve.value? (start.run 100 keptUnseen).store = some () ∧
        (handle.unreserve.after (start.run 100 keptUnseen).store).cell?
          id.text reservationColumn = some (Bytes.ofText handle.reservation.text) := by
      decide +kernel
    exact told.mp released.1 released.2

end Tx

end GuardedRows
