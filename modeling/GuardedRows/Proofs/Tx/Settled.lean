import GuardedRows.Proofs.Tx.Edits
import GuardedRows.Tx.Lifecycle

/-!
# How operations come out

An operation sends one mutation. If the store tells what became of it, the operation is done
exactly if the mutation landed. If the store hides it, the operation is done exactly if its
verifier sees what it looks for in the record as it is afterwards.
-/

set_option autoImplicit false

namespace GuardedRows.Tx

open StoreStep

/-! ## What verifiers look for -/

/-- What the record of a transaction says, if there is one that reads. -/
def Id.snapshot? (id : Id) (store : Memory) : Option Snapshot := readable (store.read id.text)

/-- What does not land is not seen. -/
theorem Id.snapshot?_of_missed {store : Memory} {mutation : Mutation}
    (missed : store.lands mutation = false) (id : Id) :
    id.snapshot? (store.submit mutation).2 = id.snapshot? store := by
  rw [snapshot?, Memory.read_of_missed missed, snapshot?]

def Id.status? (id : Id) (store : Memory) : Option Status :=
  (id.snapshot? store).bind Snapshot.status

theorem Id.status?_of_missed {store : Memory} {mutation : Mutation}
    (missed : store.lands mutation = false) (id : Id) :
    id.status? (store.submit mutation).2 = id.status? store := by
  rw [status?, snapshot?_of_missed missed, status?]

def Id.reservation? (id : Id) (store : Memory) : Option Reservation :=
  (id.snapshot? store).bind Snapshot.reservation

def Id.positions (id : Id) (store : Memory) : List UInt32 :=
  match id.snapshot? store with
  | none => []
  | some snapshot => snapshot.steps.map Prod.fst

theorem Id.any_status (id : Id) (store : Memory) (status : Status) :
    (id.snapshot? store).any (·.status = some status) =
      decide (id.status? store = some status) := by
  unfold Id.status?
  cases id.snapshot? store <;> simp

theorem Id.any_reservation (id : Id) (store : Memory) (reservation : Reservation) :
    (id.snapshot? store).any (·.reservation = some reservation) =
      decide (id.reservation? store = some reservation) := by
  unfold Id.reservation?
  cases id.snapshot? store <;> simp

theorem Id.all_reservation (id : Id) (store : Memory) (reservation : Reservation) :
    (id.snapshot? store).all (·.reservation ≠ some reservation) =
      decide (id.reservation? store ≠ some reservation) := by
  unfold Id.reservation?
  cases id.snapshot? store <;> simp

theorem Edit.settle_eq_confirms (id : Id) (edits : List Edit)
    (writes : (mutation id edits).hasWrites = true) (verifier : Option Snapshot → Bool)
    (store : Memory) :
    ∃ seen, settle id edits verifier store =
      .ok ⟨if store.confirms (mutation id edits)
            (verifier (id.snapshot? (store.submit (mutation id edits)).2))
          then .accepted else .rejected, seen⟩
        (store.submit (mutation id edits)).2 :=
  ⟨_, Edit.settle_eq writes verifier⟩

/-! ## Transactions as a whole -/

theorem find_of_ofRecord {store : Memory} {id : Id} {record : Record} {snapshot : Snapshot}
    (found : store.read id.text = some record) (read : Snapshot.ofRecord record = .ok snapshot) :
    find id store = .ok (some snapshot) store := by
  simp only [find, bind, EStateM.bind, RowStore.read, found, read]
  rfl

theorem find_of_absent {store : Memory} {id : Id} (absent : store.read id.text = none) :
    find id store = .ok none store := by
  simp only [find, bind, EStateM.bind, RowStore.read, absent]
  rfl

def createEdits (now : UInt64) : List Edit :=
  [.requireAbsent, .putStatus .new, .putCreateTime now]

theorem create_eq (home : Instance) (drawn : Uuid) (now : UInt64) (store : Memory) :
    let id : Id := ⟨home, drawn⟩
    let later := (store.submit (Edit.mutation id (createEdits now))).2
    create home drawn now store =
      if store.confirms (Edit.mutation id (createEdits now)) (id.status? later = some .new) then
        .ok id later
      else .error (.refused (.notCreated id .rejected)) later := by
  intro id later
  obtain ⟨seen, settled⟩ := Edit.settle_eq_confirms id (createEdits now) rfl
    (fun current => current.any (·.status = some .new)) store
  rw [Id.any_status] at settled
  have ran : create home drawn now store = _ := bind_of_ok settled _
  rw [ran]
  split <;> rfl

def reserveEdits (reservation : Reservation) : List Edit :=
  [.requireStatus Status.all, .reserve reservation]

theorem tryReserve_eq (id : Id) (lock : LockId) (drawn : Uuid) (store : Memory) :
    let edits := reserveEdits ⟨lock, drawn⟩
    let later := (store.submit (Edit.mutation id edits)).2
    tryReserve id lock drawn store =
      if store.confirms (Edit.mutation id edits)
          (id.reservation? later = some ⟨lock, drawn⟩) then
        .ok (some ⟨id, ⟨lock, drawn⟩⟩) later
      else .ok none later := by
  intro edits later
  obtain ⟨seen, settled⟩ := Edit.settle_eq_confirms id edits rfl
    (fun current => current.any (·.reservation = some ⟨lock, drawn⟩)) store
  rw [Id.any_reservation] at settled
  have ran : tryReserve id lock drawn store = _ := bind_of_ok settled _
  rw [ran]
  split <;> rfl

/-! ## Work through a handle -/

namespace Handle

/-- An operation through a handle that has to be accepted. -/
theorem settled_eq (handle : Handle) (act : Act) (edits : List Edit)
    (writes : (Edit.mutation handle.transaction edits).hasWrites = true)
    (verifier : Option Snapshot → Bool) (store : Memory) :
    (do
      let settled ← Edit.settle handle.transaction edits verifier
      handle.expectAccepted act settled.outcome : StoreStep Memory Unit) store =
      if store.confirms (Edit.mutation handle.transaction edits)
          (verifier (handle.transaction.snapshot?
            (store.submit (Edit.mutation handle.transaction edits)).2)) then
        .ok () (store.submit (Edit.mutation handle.transaction edits)).2
      else
        .error (.refused (.actNotAccepted handle.transaction act .rejected))
          (store.submit (Edit.mutation handle.transaction edits)).2 := by
  obtain ⟨seen, settled⟩ := Edit.settle_eq_confirms _ _ writes verifier store
  rw [bind_of_ok settled]
  split <;> rfl

def statusEdits (handle : Handle) (status : Status) : List Edit :=
  handle.guarded [.putStatus status]

theorem setStatus_eq (handle : Handle) (status : Status) (store : Memory) :
    let edits := handle.statusEdits status
    let later := (store.submit (Edit.mutation handle.transaction edits)).2
    handle.setStatus status store =
      if store.confirms (Edit.mutation handle.transaction edits)
          (handle.transaction.status? later = some status) then
        .ok () later
      else
        .error (.refused (.actNotAccepted handle.transaction (.setStatus status) .rejected))
          later := by
  intro edits later
  have ran := handle.settled_eq (.setStatus status) edits rfl
    (fun current => current.any (·.status = some status)) store
  rw [Id.any_status] at ran
  exact ran

def releaseEdits (handle : Handle) : List Edit := [.release handle.reservation]

theorem unreserve_eq (handle : Handle) (store : Memory) :
    let edits := handle.releaseEdits
    let later := (store.submit (Edit.mutation handle.transaction edits)).2
    handle.unreserve store =
      if store.confirms (Edit.mutation handle.transaction edits)
          (handle.transaction.reservation? later ≠ some handle.reservation) then
        .ok () later
      else .error (.refused (.actNotAccepted handle.transaction .unreserve .rejected)) later := by
  intro edits later
  have ran := handle.settled_eq .unreserve edits rfl
    (fun current => current.all (·.reservation ≠ some handle.reservation)) store
  rw [Id.all_reservation] at ran
  exact ran

def infoEdits (handle : Handle) (info : Info) (value : String) : List Edit :=
  handle.guarded [.putInfo info value]

/-- A detail is taken to be stored only if the store tells so. -/
theorem setInfo_eq (handle : Handle) (info : Info) (value : String) (store : Memory) :
    let sent := store.submit (Edit.mutation handle.transaction (handle.infoEdits info value))
    handle.setInfo info value store =
      match sent.1 with
      | .accepted => .ok () sent.2
      | outcome =>
          .error (.refused (.actNotAccepted handle.transaction (.setInfo info) outcome))
            sent.2 := by
  intro sent
  have attempted : (Edit.attempt handle.transaction (handle.infoEdits info value) :
      StoreStep Memory Outcome) store = .ok sent.1 sent.2 := Mutation.attempt_eq rfl
  have ran : handle.setInfo info value store = _ := bind_of_ok attempted _
  rw [ran]
  cases sent.1 <;> rfl

/-- The mutation that stores a detail. -/
def detail (handle : Handle) (info : Info) (value : String) : Mutation :=
  Edit.mutation handle.transaction (handle.infoEdits info value)

theorem setInfo_outcome (handle : Handle) (info : Info) (value : String) (store : Memory) :
    ((handle.setInfo info value).value? store = none ↔
        (store.submit (handle.detail info value)).1 ≠ .accepted) ∧
      (handle.setInfo info value).after store =
        (store.submit (handle.detail info value)).2 := by
  have sets := handle.setInfo_eq info value store
  dsimp only at sets
  unfold value? after
  rw [sets, ← detail]
  cases (store.submit (handle.detail info value)).1 <;> simp

end Handle

end GuardedRows.Tx
