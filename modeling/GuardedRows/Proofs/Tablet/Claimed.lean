import GuardedRows.Proofs.Store.Settle
import GuardedRows.Proofs.Tablet.Partition

/-!
# Claimed tablets

While an operation holds a tablet, only a release by that operation alters the tablet's record,
and all it does is give the tablet back. So of the claims of a tablet between two releases at
most one takes effect, whoever makes them and whatever outcomes are hidden.
-/

set_option autoImplicit false

namespace GuardedRows.Tablet

namespace Act

def performAll (store : Memory) (acts : List Act) : Memory := acts.foldl perform store

def claims (row : String) : Act → Bool
  | .claim extent _ => extent.metadataRow = row
  | _ => false

def releases (row : String) : Act → Bool
  | .release extent _ => extent.metadataRow = row
  | _ => false

/-- The acts that take effect on a row, in order. -/
def effective (row : String) (store : Memory) : List Act → List Act
  | [] => []
  | act :: rest =>
      let later := act.perform store
      if later.read row = store.read row then effective row later rest
      else act :: effective row later rest

/-- An act is a release by an operation of the holder's text, and of the row's cells it takes
away the holder's alone. -/
def GivesBack (act : Act) (store : Memory) (row : String) (holder : OperationId) : Prop :=
  ∃ extent operation, act = .release extent operation ∧ extent.metadataRow = row ∧
    operation.text = holder.text ∧
    ∀ column, (act.perform store).cell? row column =
      if column = operationColumn then none else store.cell? row column

end Act

variable {store later : Memory} {row : String}

/-! ## Mutations that ask for an unclaimed tablet -/

def AsksUnclaimed (mutation : Mutation) : Prop :=
  .absent operationColumn ∈ mutation.conditions

theorem asksUnclaimed_claiming (extent : Extent) (operation : OperationId) :
    AsksUnclaimed (claiming extent operation) :=
  List.mem_cons_of_mem _ List.mem_cons_self

theorem AvailabilityChange.asksUnclaimed (change : AvailabilityChange) (extent : Extent) :
    AsksUnclaimed (Edit.mutation extent change.edits) :=
  List.mem_cons_of_mem _ List.mem_cons_self

theorem AsksUnclaimed.lands_eq_false {mutation : Mutation} (asks : AsksUnclaimed mutation)
    (claimed : store.cell? mutation.row operationColumn ≠ none) :
    store.lands mutation = false := by
  refine Bool.eq_false_iff.mpr fun landed => claimed ?_
  exact Condition.holds_absent.mp (Memory.holds_of_lands landed asks)

theorem AsksUnclaimed.read_submit {mutation : Mutation} (asks : AsksUnclaimed mutation)
    (claimed : store.cell? row operationColumn ≠ none) :
    (store.submit mutation).2.read row = store.read row := by
  rw [Memory.read_submit, if_neg ?_]
  rintro ⟨rfl, landed⟩
  rw [asks.lands_eq_false claimed] at landed
  cases landed

theorem read_of_sent (sent : Memory.Sent AsksUnclaimed store later)
    (claimed : store.cell? row operationColumn ≠ none) : later.read row = store.read row := by
  induction sent with
  | nothing => rfl
  | @more between mutation _ asks ih =>
      have held : between.cell? row operationColumn ≠ none := by
        rw [Memory.cell?, ih]
        exact claimed
      exact (asks.read_submit held).trans ih

theorem AvailabilityChange.sent_isReady (change : AvailabilityChange) (catalog : Catalog)
    (config : Config) (elapsed : Duration) (store : Memory) :
    Memory.Sent AsksUnclaimed store ((change.isReady catalog config elapsed).after store) := by
  refine StoreStep.sent_after (isReady_moves reads_memory (fun extent => ?_) _ _ _) store
  exact (StoreStep.Sends.submit (change.asksUnclaimed extent)).moves

/-! ## One act -/

namespace Act

theorem perform_claim (store : Memory) (extent : Extent) (operation : OperationId) :
    (claim extent operation).perform store = (store.submit (claiming extent operation)).2 := by
  have writes : (claiming extent operation).hasWrites = true := rfl
  exact Mutation.after_attempt writes store

theorem perform_release (store : Memory) (extent : Extent) (operation : OperationId) :
    (release extent operation).perform store =
      (store.submit (releasing extent operation)).2 := by
  have writes : (releasing extent operation).hasWrites = true := rfl
  exact Mutation.after_attempt writes store

theorem read_release_of_ne {extent : Extent} (other : extent.metadataRow ≠ row)
    (store : Memory) (operation : OperationId) :
    ((release extent operation).perform store).read row = store.read row := by
  rw [perform_release, Memory.read_submit, if_neg fun same => other same.1.symm]

/-- Whoever holds a tablet, only a release alters it. -/
theorem read_of_claimed {act : Act} (claimed : store.cell? row operationColumn ≠ none)
    (holding : act.releases row = false) : (act.perform store).read row = store.read row := by
  cases act with
  | addFault fault => rfl
  | claim extent operation =>
      rw [perform_claim]
      exact (asksUnclaimed_claiming extent operation).read_submit claimed
  | release extent operation =>
      exact read_release_of_ne (of_decide_eq_false holding) store operation
  | pass change catalog config elapsed =>
      exact read_of_sent (change.sent_isReady catalog config elapsed store) claimed
  | submission change extent => exact (change.asksUnclaimed extent).read_submit claimed

theorem givesBack_of_lands {extent : Extent} {operation holder : OperationId}
    (claimed : store.cell? extent.metadataRow operationColumn =
      some (Bytes.ofText holder.text))
    (landed : store.lands (releasing extent operation) = true) :
    (release extent operation).GivesBack store extent.metadataRow holder := by
  have asked : store.cell? extent.metadataRow operationColumn =
      some (Bytes.ofText operation.text) :=
    Condition.holds_equals.mp (Memory.holds_of_lands landed List.mem_cons_self)
  have text : operation.text = holder.text :=
    Bytes.ofText_injective (Option.some.inj (asked.symm.trans claimed))
  refine ⟨extent, operation, rfl, rfl, text, fun column => ?_⟩
  rw [perform_release, Memory.cell?_submit, if_pos ⟨rfl, landed⟩]
  simp [releasing, Write.onCell, eq_comm]

/-- A held tablet stays as it is, unless its holder gives it back. -/
theorem read_or_givesBack {holder : OperationId}
    (claimed : store.cell? row operationColumn = some (Bytes.ofText holder.text)) (act : Act) :
    (act.perform store).read row = store.read row ∨ act.GivesBack store row holder := by
  have held : store.cell? row operationColumn ≠ none := by simp [claimed]
  cases released : act.releases row with
  | false => exact .inl (read_of_claimed held released)
  | true =>
      cases act with
      | release extent operation =>
          have same : extent.metadataRow = row := of_decide_eq_true released
          subst same
          cases landed : store.lands (releasing extent operation) with
          | true => exact .inr (givesBack_of_lands claimed landed)
          | false =>
              left
              rw [perform_release, Memory.read_submit, if_neg fun both => ?_]
              rw [landed] at both
              cases both.2
      | _ => cases released

/-- A claim that takes effect finds the extent's previous end row. -/
theorem previousRow_of_claim {extent : Extent} {operation : OperationId}
    (changed : ((claim extent operation).perform store).read row ≠ store.read row) :
    store.cell? extent.metadataRow previousRowColumn =
      some (encodePreviousRow extent.previousEndRow) := by
  rw [perform_claim, Memory.read_submit] at changed
  cases landed : store.lands (claiming extent operation) with
  | false => simp [landed] at changed
  | true => exact Condition.holds_equals.mp (Memory.holds_of_lands landed List.mem_cons_self)

/-- A claim that takes effect leaves the tablet claimed. -/
theorem claimed_of_claims {act : Act} (claims : act.claims row = true)
    (changed : (act.perform store).read row ≠ store.read row) :
    (act.perform store).cell? row operationColumn ≠ none := by
  cases act with
  | claim extent operation =>
      have same : extent.metadataRow = row := of_decide_eq_true claims
      subst same
      rw [perform_claim] at changed ⊢
      rw [Memory.read_submit] at changed
      cases landed : store.lands (claiming extent operation) with
      | false => simp [landed] at changed
      | true =>
          have row : extent.metadataRow = (claiming extent operation).row := rfl
          rw [Memory.cell?_submit, if_pos ⟨row, landed⟩]
          simp [claiming, Edit.mutation, Edit.writes, Write.onCell]
  | _ => cases claims

/-! ## Runs -/

theorem read_of_effective_eq_nil {acts : List Act} (none : effective row store acts = []) :
    (performAll store acts).read row = store.read row := by
  induction acts generalizing store with
  | nil => rfl
  | cons act rest ih =>
      unfold effective at none
      dsimp only at none
      by_cases same : (act.perform store).read row = store.read row
      · rw [if_pos same] at none
        exact (ih none).trans same
      · rw [if_neg same] at none
        cases none

theorem effective_of_claimed {acts : List Act}
    (claimed : store.cell? row operationColumn ≠ none)
    (holding : ∀ act ∈ effective row store acts, act.releases row = false) :
    effective row store acts = [] := by
  induction acts generalizing store with
  | nil => rfl
  | cons act rest ih =>
      unfold effective at holding ⊢
      dsimp only at holding ⊢
      by_cases same : (act.perform store).read row = store.read row
      · rw [if_pos same] at holding ⊢
        refine ih ?_ holding
        rw [Memory.cell?, same]
        exact claimed
      · rw [if_neg same] at holding
        exact absurd (read_of_claimed claimed (holding act List.mem_cons_self)) same

/-- Where no release takes effect, at most one claim does. -/
theorem countP_claims_le {acts : List Act}
    (holding : ∀ act ∈ effective row store acts, act.releases row = false) :
    (effective row store acts).countP (claims row) ≤ 1 := by
  induction acts generalizing store with
  | nil => exact Nat.zero_le 1
  | cons act rest ih =>
      unfold effective at holding ⊢
      dsimp only at holding ⊢
      by_cases same : (act.perform store).read row = store.read row
      · rw [if_pos same] at holding ⊢
        exact ih holding
      · rw [if_neg same] at holding ⊢
        have later := fun other member => holding other (List.mem_cons_of_mem act member)
        cases claims : act.claims row with
        | true =>
            have nothingElse := effective_of_claimed (claimed_of_claims claims same) later
            rw [nothingElse]
            simp [claims]
        | false =>
            rw [List.countP_cons_of_neg (by simp [claims])]
            exact ih later

/-- In every run from any store, a claimed tablet stays as it is until its holder gives it back;
of the claims of a tablet between two releases at most one takes effect; and none does that
does not know the tablet's previous end row. -/
theorem claims_exclude (start : Memory) (acts : List Act) :
    (∀ before act after, acts = before ++ act :: after →
      ∀ row (holder : OperationId),
        (performAll start before).cell? row operationColumn =
          some (Bytes.ofText holder.text) →
        (act.perform (performAll start before)).read row = (performAll start before).read row ∨
          act.GivesBack (performAll start before) row holder) ∧
    (∀ before between after, acts = before ++ between ++ after →
      ∀ row, (∀ act ∈ effective row (performAll start before) between,
          act.releases row = false) →
        (effective row (performAll start before) between).countP (claims row) ≤ 1 ∧
        ((performAll start before).cell? row operationColumn ≠ none →
          (performAll start (before ++ between)).read row =
            (performAll start before).read row)) ∧
    (∀ before extent operation after, acts = before ++ claim extent operation :: after →
      ((performAll start before).cell? extent.metadataRow previousRowColumn).map
          decodePreviousRow ≠ some (.ok extent.previousEndRow) →
      ∀ row, ((claim extent operation).perform (performAll start before)).read row =
        (performAll start before).read row) := by
  refine ⟨?_, ?_, ?_⟩
  · intro before act after _ row holder claimed
    exact read_or_givesBack claimed act
  · intro before between after _ row holding
    refine ⟨countP_claims_le holding, fun claimed => ?_⟩
    have stayed := read_of_effective_eq_nil (effective_of_claimed claimed holding)
    rw [performAll, List.foldl_append]
    exact stayed
  · intro before extent operation after _ mismatch row
    refine Classical.byContradiction fun changed => mismatch ?_
    rw [previousRow_of_claim changed]
    simp

end Act

end GuardedRows.Tablet
