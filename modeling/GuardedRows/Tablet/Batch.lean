import GuardedRows.Tablet.Rows

/-!
# Batches of tablet mutations

A batch sends mutations of many tablets without waiting for any one of them. The store
takes each mutation at once, but its answer may arrive later and in another order. The
batch goes through its mutations in a queue. One whose answer is there is handed to a
consumer as accepted or rejected; one without an answer is set aside and comes back to the
end of the queue when its answer arrives. An unknown outcome is settled by reading the
tablet again and asking the submission's validator.
-/

set_option autoImplicit false

namespace GuardedRows.Tablet

abbrev Validator := Metadata → Bool

structure Delivery where
  extent : Extent
  answer : Except Error Outcome
  arrived : Bool

def Delivery.arrive (extent : Extent) (delivery : Delivery) : Delivery :=
  if delivery.extent = extent then { delivery with arrived := true } else delivery

structure Batch (σ ρ : Type) where
  store : σ
  queue : List Delivery := []
  waiting : List Delivery := []
  pending : List (Extent × Validator) := []
  submitted : List Extent := []
  reports : List ρ := []

abbrev BatchStep (σ ρ : Type) := EStateM Error (Batch σ ρ)

/-- What is done with an outcome. A consumer may look at the store. -/
abbrev Consumer (σ ρ : Type) := Extent → Outcome → σ → ρ × σ

namespace Batch

variable {σ ρ : Type} [RowStore σ]

def lift {α : Type} (step : StoreStep σ α) : BatchStep σ ρ α := fun batch =>
  match step batch.store with
  | .ok value store => .ok value { batch with store }
  | .error error store => .error error { batch with store }

/-! ## Handing over -/

def takePending (extent : Extent) : BatchStep σ ρ Validator := do
  let batch ← get
  match batch.pending.find? (·.1 = extent) with
  | none => throw (.refused (.notPending extent))
  | some (_, validator) =>
      set { batch with pending := batch.pending.filter (·.1 ≠ extent) }
      return validator

/-- Settles what became of a mutation. A failed submission is as good as an unknown
outcome. -/
def resolve (extent : Extent) (validator : Validator) :
    Except Error Outcome → StoreStep σ Outcome
  | .ok .accepted => return .accepted
  | .ok .rejected => return .rejected
  | .ok .unknown | .error _ => do
      let current ← find extent
      return if current.any validator then .accepted else .rejected

def report (consumer : Consumer σ ρ) (extent : Extent) (outcome : Outcome) :
    BatchStep σ ρ Unit :=
  modify fun batch =>
    let (made, store) := consumer extent outcome batch.store
    { batch with store, reports := batch.reports ++ [made] }

/-- Takes in one answer. If the tablet cannot be read again, the outcome is lost. -/
def process (consumer : Consumer σ ρ) (delivery : Delivery) : BatchStep σ ρ Unit := do
  let validator ← takePending delivery.extent
  let outcome ← lift (resolve delivery.extent validator delivery.answer)
  report consumer delivery.extent outcome

/-- Goes through a queue: takes in the answers that have arrived, up to the first that
fails, and sets the other deliveries aside. -/
def processEach (consumer : Consumer σ ρ) : List Delivery → BatchStep σ ρ Unit
  | [] => pure ()
  | delivery :: rest => do
      modify fun batch => { batch with queue := rest }
      if delivery.arrived then process consumer delivery
      else modify fun batch => { batch with waiting := batch.waiting ++ [delivery] }
      processEach consumer rest

def processReady (consumer : Consumer σ ρ) : BatchStep σ ρ Unit := do
  processEach consumer (← get).queue

/-! ## Submitting -/

/-- Sends the mutation of a tablet. A mutation without writes and a tablet that was
submitted before are refused and leave no trace. The answer arrives at once unless it is
deferred. -/
def submit (consumer : Consumer σ ρ) (deferred : Bool) (extent : Extent) (edits : List Edit)
    (validator : Validator) : BatchStep σ ρ Unit := do
  let mutation := Edit.mutation extent edits
  if !mutation.hasWrites then throw (.refused (.noTabletWrites extent))
  if (← get).submitted.contains extent then throw (.refused (.repeatedTablet extent))
  modify fun batch => { batch with
    submitted := batch.submitted ++ [extent]
    pending := batch.pending ++ [(extent, validator)] }
  let answer ← lift (RowStore.submit mutation).outcome
  modify fun batch => { batch with queue := batch.queue ++ [⟨extent, answer, !deferred⟩] }
  processReady consumer

/-! ## Waiting -/

/-- Lets the answer for a tablet arrive. A delivery that was set aside goes to the end of the
queue; one the batch has not come to keeps its place. -/
def arrive (extent : Extent) (batch : Batch σ ρ) : Batch σ ρ :=
  let answered := batch.waiting.filter (·.extent = extent)
  { batch with
    queue := (batch.queue ++ answered).map (Delivery.arrive extent)
    waiting := batch.waiting.filter (·.extent ≠ extent) }

/-- The tablets whose answers have not arrived, in the order of submission. What was set
aside was submitted before anything the batch has not come to. -/
def unanswered (batch : Batch σ ρ) : List Extent :=
  (batch.waiting ++ batch.queue.filter (!·.arrived)).map Delivery.extent

inductive Arrival where
  | inOrder
  | reversed
  deriving DecidableEq

def arriveAll (order : Arrival) (batch : Batch σ ρ) : Batch σ ρ :=
  let extents :=
    match order with
    | .inOrder => batch.unanswered
    | .reversed => batch.unanswered.reverse
  extents.foldl (fun batch extent => batch.arrive extent) batch

/-- Waits for every answer and hands over all outcomes. Behind the first that
cannot be handed over the rest are lost. -/
def close (consumer : Consumer σ ρ) (order : Arrival) : BatchStep σ ρ Unit := do
  modify (arriveAll order)
  processReady consumer

/-- Closes a batch that is given up: what cannot be handed over is passed over in
silence. -/
def abandon (batch : Batch σ ρ) (consumer : Consumer σ ρ) (order : Arrival) : Batch σ ρ :=
  match close consumer order batch with
  | .ok _ batch => batch
  | .error _ batch => batch

/-- Does some work with a new batch, closes the batch and answers its reports. If the work
fails the batch is given up. -/
def run (consumer : Consumer σ ρ) (work : BatchStep σ ρ Unit) : StoreStep σ (List ρ) :=
  fun store =>
    match work { store } with
    | .error error batch => .error error (batch.abandon consumer .inOrder).store
    | .ok _ batch =>
        match close consumer .inOrder batch with
        | .ok _ batch => .ok batch.reports batch.store
        | .error error batch => .error error batch.store

end Batch

end GuardedRows.Tablet
