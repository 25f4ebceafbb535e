import GuardedRows.Proofs.Tx.TypedView

/-!
# The order of recorded steps

A step is written in the column that is as far from the last position as the step is from the
first. That distance is always there, the column gives the position back, and of two columns
the one of the higher position comes first. A record whose steps stand in such columns is read
from the top of the stack down, whatever its positions are.
-/

set_option autoImplicit false

namespace GuardedRows.Tx

/-- A qualifier is read only if it is the numeral of a distance that a position can have. -/
theorem exists_distance_of_stepPosition {qualifier : String} {position : UInt32}
    (read : stepPosition qualifier = .ok position) :
    ∃ distance, Text.word32? 16 qualifier = some distance ∧
      position.toNat + distance.toNat = lastPosition.toNat := by
  cases numeral : Text.word32? 16 qualifier with
  | none => simp [stepPosition, numeral] at read
  | some distance =>
      rw [stepPosition_of_word32? numeral] at read
      have made : lastPosition - distance = position := Except.ok.inj read
      exact ⟨distance, rfl, made ▸ toNat_lastPosition_sub distance⟩

/-- Steps in the columns of positions never keep a record from being read. -/
theorem Canonical.exists_ofRecord_iff {record : Record} (canonical : Canonical record) :
    (∃ snapshot, Snapshot.ofRecord record = .ok snapshot) ↔
      (∃ id, Id.parse record.row = .ok id) ∧
        ∃ reservation, Snapshot.readReservation record = .ok reservation := by
  constructor
  · rintro ⟨snapshot, read⟩
    obtain ⟨parsed, _, reserved⟩ := Snapshot.fields_of_ofRecord read
    exact ⟨⟨_, parsed⟩, ⟨_, reserved⟩⟩
  · rintro ⟨⟨id, parsed⟩, ⟨reservation, reserved⟩⟩
    obtain ⟨steps, lists⟩ := canonical.exists_lists
    unfold Snapshot.ofRecord
    rw [parsed, reserved, lists.readSteps]
    exact ⟨_, rfl⟩

/-- The column of a position gives the position back, a higher position has the earlier column,
and neither the distance of a position nor the position of a distance is cut off at zero. So a
record whose step columns are columns of positions reads unless its row or its reservation
does not, and its snapshot lists each of its steps once from the highest position down, with
the highest position as the top. -/
theorem step_columns_descend :
    (∀ position : UInt32, stepPosition (stepColumn position).qualifier = .ok position ∧
      (lastPosition - position).toNat + position.toNat = lastPosition.toNat) ∧
    (∀ qualifier position, stepPosition qualifier = .ok position →
      ∃ distance, Text.word32? 16 qualifier = some distance ∧
        position.toNat + distance.toNat = lastPosition.toNat) ∧
    (∀ higher lower : UInt32,
      lower < higher ↔ compare (stepColumn higher) (stepColumn lower) = .lt) ∧
    ∀ record, Canonical record →
      ((∃ snapshot, Snapshot.ofRecord record = .ok snapshot) ↔
        (∃ id, Id.parse record.row = .ok id) ∧
          ∃ reservation, Snapshot.readReservation record = .ok reservation) ∧
      ∀ snapshot, Snapshot.ofRecord record = .ok snapshot →
        (snapshot.steps.Pairwise fun upper lower => lower.1 < upper.1) ∧
        (∀ position step, (position, step) ∈ snapshot.steps ↔
          record.get? (stepColumn position) = some step) ∧
        ∀ position, snapshot.topPosition = some position ↔
          position ∈ snapshot.steps.map Prod.fst ∧
            ∀ other ∈ snapshot.steps.map Prod.fst, other ≤ position := by
  refine ⟨fun position => ⟨stepPosition_stepColumn position, toNat_lastPosition_sub position⟩,
    fun qualifier position read => exists_distance_of_stepPosition read,
    fun higher lower => ⟨compare_stepColumn, lt_of_compare_stepColumn⟩,
    fun record canonical => ⟨canonical.exists_ofRecord_iff, fun snapshot read => ?_⟩⟩
  have lists : Lists record snapshot.steps :=
    (Snapshot.describes_iff.mpr read).lists canonical
  exact ⟨lists.descending, fun position step => lists.mem_iff,
    fun position => Snapshot.topPosition_eq_some_iff lists.descending⟩

/-- A transaction with three steps and a gap between any two of them. -/
def gappedSteps : Record :=
  .ofList holder.transaction.text [(stepColumn 1, [7]), (stepColumn 4294967295, [8]),
    (stepColumn 16, [9])]

theorem canonical_gappedSteps : Canonical gappedSteps := by
  intro column _ stored
  obtain ⟨value, found⟩ := Option.ne_none_iff_exists'.mp stored
  have listed : ∀ cell ∈ gappedSteps.toList,
      cell.1 = stepColumn 4294967295 ∨ cell.1 = stepColumn 16 ∨ cell.1 = stepColumn 1 := by
    decide +kernel
  rcases listed (column, value) (SortedMap.mem_toList_iff.mpr found) with top | middle | bottom
  · exact ⟨4294967295, top⟩
  · exact ⟨16, middle⟩
  · exact ⟨1, bottom⟩

theorem step_columns_descend_gapped :
    ∃ snapshot, Snapshot.ofRecord gappedSteps = .ok snapshot ∧
      (16, [9]) ∈ snapshot.steps ∧ snapshot.topPosition = some 4294967295 := by
  obtain ⟨reads, lists⟩ := step_columns_descend.2.2.2 gappedSteps canonical_gappedSteps
  have row : gappedSteps.row = holder.transaction.text := by decide +kernel
  have unreserved : gappedSteps.text? reservationColumn = none := by decide +kernel
  obtain ⟨snapshot, read⟩ := reads.mpr
    ⟨⟨holder.transaction, by rw [row, Id.parse_text]⟩, none, by
      rw [Snapshot.readReservation, unreserved]⟩
  obtain ⟨_, steps, top⟩ := lists snapshot read
  have step : (16, [9]) ∈ snapshot.steps := (steps 16 [9]).mpr (by decide +kernel)
  have highest : (4294967295, [8]) ∈ snapshot.steps :=
    (steps 4294967295 [8]).mpr (by decide +kernel)
  refine ⟨snapshot, read, step, (top 4294967295).mpr ⟨List.mem_map_of_mem highest, ?_⟩⟩
  intro other _
  exact UInt32.le_iff_toNat_le.mpr (Nat.le_of_lt_succ other.toNat_lt)

end GuardedRows.Tx
