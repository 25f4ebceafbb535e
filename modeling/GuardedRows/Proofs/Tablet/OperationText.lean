import GuardedRows.Proofs.Store.Moves
import GuardedRows.Proofs.Tx.IdText
import GuardedRows.Tablet.Metadata

/-!
# Texts of operation ids

A text reads as an operation id if it names the operation and what stands behind the first
colon reads as the id of a transaction. Many texts read as one id, and one of them is its own,
in every format of UUIDs.
-/

set_option autoImplicit false

namespace GuardedRows.Tablet

theorem OperationKind.parse_eq_ok_iff {text : String} {kind : OperationKind} :
    OperationKind.parse text = .ok kind ↔ text = kind.text := by
  constructor
  · intro parsed
    unfold parse at parsed
    split at parsed
    · next named =>
        cases parsed
        exact named
    · split at parsed
      · next named =>
          cases parsed
          exact named
      · split at parsed
        · next named =>
            cases parsed
            exact named
        · cases parsed
  · intro named
    rw [named, parse_text]

namespace OperationId

theorem parseIn_eq_ok_iff {format : Uuid.Format} {text : String} {operation : OperationId} :
    parseIn format text = .ok operation ↔ ∃ transaction : String,
      Tx.Id.parseIn format transaction = .ok operation.transaction ∧
        text = operation.kind.text ++ ":" ++ transaction := by
  constructor
  · intro parsed
    unfold parseIn at parsed
    split at parsed
    · cases parsed
    · next kind transaction cut =>
        obtain ⟨kindRead, named, rest⟩ := StoreStep.exists_of_bind parsed
        obtain ⟨id, read, made⟩ := StoreStep.exists_of_bind rest
        cases made
        obtain ⟨whole, _⟩ := Text.cutFirst_eq_some_iff.mp cut
        refine ⟨String.ofList transaction, read, String.toList_injective ?_⟩
        rw [← OperationKind.parse_eq_ok_iff.mp named]
        simp [whole]
  · intro shape
    obtain ⟨transaction, reads, rfl⟩ := shape
    exact parseIn_of_reads reads

end OperationId

/-- Whatever the format of UUIDs is: the id of a transaction is read from the name of its
instance and any text the format reads, so from every spelling of the UUID and from nothing
that does not spell it, and it depends on what is read only. The id of an operation is read
from the name of what it does and any text of its transaction. What is written for either
reads as the same id again. -/
theorem ids_read_as_spelled {format : Uuid.Format} (lawful : format.Lawful) :
    (∀ (text : String) (id : Tx.Id), Tx.Id.parseIn format text = .ok id ↔ ∃ spelled : String,
      format.parse? spelled = some id.uuid ∧
        text = "FATE:" ++ id.home.text ++ ":" ++ spelled) ∧
    (∀ (home : Tx.Instance) (uuid : Uuid) (spelled : String),
      Uuid.Spells Uuid.SmallLetters spelled.toList uuid →
        Tx.Id.parseIn format ("FATE:" ++ home.text ++ ":" ++ spelled) = .ok ⟨home, uuid⟩) ∧
    (∀ (text : String) (id : Tx.Id), Tx.Id.parseIn format text = .ok id → ∃ spelled : String,
      Uuid.Spells Uuid.AnyCase spelled.toList id.uuid ∧
        text = "FATE:" ++ id.home.text ++ ":" ++ spelled) ∧
    (∀ (home : Tx.Instance) (uuid : Uuid) (spelled spelled' : String),
      format.parse? spelled = some uuid → format.parse? spelled' = some uuid →
        Tx.Id.parseIn format ("FATE:" ++ home.text ++ ":" ++ spelled) =
          Tx.Id.parseIn format ("FATE:" ++ home.text ++ ":" ++ spelled')) ∧
    (∀ id : Tx.Id, Tx.Id.parseIn format (id.textIn format) = .ok id) ∧
    (∀ (text : String) (operation : OperationId),
      OperationId.parseIn format text = .ok operation ↔ ∃ transaction : String,
        Tx.Id.parseIn format transaction = .ok operation.transaction ∧
          text = operation.kind.text ++ ":" ++ transaction) ∧
    ∀ operation : OperationId,
      OperationId.parseIn format (operation.textIn format) = .ok operation := by
  have reads : ∀ (text : String) (id : Tx.Id), Tx.Id.parseIn format text = .ok id ↔
      ∃ spelled : String, format.parse? spelled = some id.uuid ∧
        text = "FATE:" ++ id.home.text ++ ":" ++ spelled :=
    fun _ _ => Tx.Id.parseIn_eq_ok_iff
  have again : ∀ id : Tx.Id, Tx.Id.parseIn format (id.textIn format) = .ok id :=
    fun id => (reads _ id).mpr ⟨_, lawful.parse?_text id.uuid, rfl⟩
  refine ⟨reads, fun home uuid spelled spells => ?_, fun text id parsed => ?_,
    fun home uuid spelled spelled' read read' => ?_, again,
    fun _ _ => OperationId.parseIn_eq_ok_iff, fun operation => ?_⟩
  · exact (reads _ ⟨home, uuid⟩).mpr ⟨spelled, lawful.reads spells, rfl⟩
  · obtain ⟨spelled, read, shape⟩ := (reads text id).mp parsed
    exact ⟨spelled, lawful.spelled read, shape⟩
  · rw [(reads _ ⟨home, uuid⟩).mpr ⟨spelled, read, rfl⟩,
      (reads _ ⟨home, uuid⟩).mpr ⟨spelled', read', rfl⟩]
  · exact OperationId.parseIn_eq_ok_iff.mpr ⟨_, again operation.transaction, rfl⟩

/-- Bare capital digits, and groups behind a prefix with colons of its own, in a format that
takes the prefix in small letters only. The digits read in the format in use as well. -/
theorem ids_read_as_spelled_bare_urn :
    let uuid : Uuid := ⟨List.replicate 15 0 ++ [0xaf], rfl⟩
    Tx.Id.parse "FATE:META:000000000000000000000000000000AF" = .ok ⟨.system, uuid⟩ ∧
      Tx.Id.parseIn .literal "FATE:META:000000000000000000000000000000AF" =
        .ok ⟨.system, uuid⟩ ∧
      Tx.Id.parseIn .literal "FATE:META:urn:uuid:00000000-0000-0000-0000-0000000000aF" =
        .ok ⟨.system, uuid⟩ ∧
      OperationId.parseIn .literal
          "MERGING:FATE:META:urn:uuid:00000000-0000-0000-0000-0000000000aF" =
        .ok ⟨.merging, .system, uuid⟩ := by
  intro uuid
  obtain ⟨reads, _, _, same, _, operations, _⟩ := ids_read_as_spelled Uuid.Format.lawful_literal
  obtain ⟨readsInUse, _⟩ := ids_read_as_spelled Uuid.Format.lawful_format
  have bareInUse : Uuid.format.parse? "000000000000000000000000000000AF" = some uuid := by
    decide +kernel
  have bare : Uuid.Format.literal.parse? "000000000000000000000000000000AF" = some uuid := by
    decide +kernel
  have urn : Uuid.Format.literal.parse? "urn:uuid:00000000-0000-0000-0000-0000000000aF" =
      some uuid := by
    decide +kernel
  have inUse : Tx.Id.parse "FATE:META:000000000000000000000000000000AF" = .ok ⟨.system, uuid⟩ :=
    (readsInUse _ _).mpr ⟨_, bareInUse, by decide⟩
  have read : Tx.Id.parseIn .literal "FATE:META:000000000000000000000000000000AF" =
      .ok ⟨.system, uuid⟩ := (reads _ _).mpr ⟨_, bare, by decide⟩
  have named := (same .system uuid _ _ urn bare).trans read
  exact ⟨inUse, read, named, (operations _ ⟨.merging, .system, uuid⟩).mpr ⟨_, named, by decide⟩⟩

end GuardedRows.Tablet
