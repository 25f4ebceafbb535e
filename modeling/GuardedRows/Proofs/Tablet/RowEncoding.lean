import GuardedRows.Proofs.Tablet.MetadataRow
import GuardedRows.Proofs.Text.ByteOrder

/-!
# Metadata rows as an encoding

A metadata row tells the table and the end row of its tablet, and no other row reads as the
two. In byte order the rows of a table stand as the end rows do, with the last tablet behind
the others, and no row of another table stands among them.
-/

set_option autoImplicit false

namespace GuardedRows

theorem Text.ofText_le_ofText_iff {left right : String} :
    Bytes.ofText left ≤ Bytes.ofText right ↔ left ≤ right := by
  rw [← String.not_lt, ← ofText_lt_ofText_iff]
  exact List.not_lt.symm

namespace Tablet

variable {table : TableId} {row : String}

/-! ## Reading -/

/-- A row reads if it has a separator or ends in the mark of a last tablet. -/
theorem exists_parseMetadataRow_iff :
    (∃ parsed, parseMetadataRow row = .ok parsed) ↔
      separator ∈ row.toList ∨ row.toList.getLast? = some lastMark := by
  constructor
  · rintro ⟨⟨table, endRow⟩, parsed⟩
    rw [(parseMetadataRow_eq_ok_iff.mp parsed).2]
    cases endRow with
    | some endRow => exact .inl (by simp [metadataRow])
    | none => exact .inr (by simp [metadataRow])
  · intro marked
    unfold parseMetadataRow
    cases last : (Text.dropEnd? lastMark row.toList).filter (!·.contains separator) with
    | some name => exact ⟨_, rfl⟩
    | none =>
        have divided : separator ∈ row.toList := by
          rcases marked with divided | ending
          · exact divided
          · obtain ⟨front, shape⟩ := List.getLast?_eq_some_iff.mp ending
            have cut := Text.dropEnd?_eq_some_iff.mpr shape
            have notAsLast := Option.filter_eq_none_iff.mp last front cut
            have inside : separator ∈ front := by simpa using notAsLast
            rw [shape]
            exact List.mem_append_left _ inside
        cases cut : Text.cutFirst separator row.toList with
        | none => exact absurd divided (Text.cutFirst_eq_none_iff.mp cut)
        | some parts => exact ⟨_, rfl⟩

/-! ## Order -/

/-- The byte order of end rows. A tablet without one is the last. -/
def EndsBefore : Option String → Option String → Prop
  | some left, some right => Bytes.ofText left < Bytes.ofText right
  | some _, none => True
  | none, _ => False

theorem EndsBefore.irrefl (endRow : Option String) : ¬ EndsBefore endRow endRow := by
  cases endRow with
  | some endRow => exact List.lt_irrefl (Bytes.ofText endRow)
  | none => exact id

theorem metadataRow_lt_iff {left right : Option String} :
    metadataRow table left < metadataRow table right ↔ EndsBefore left right := by
  cases left with
  | some left =>
      cases right with
      | some right => exact metadataRow_lt_metadataRow.trans Text.ofText_lt_ofText_iff.symm
      | none => exact ⟨fun _ => trivial, fun _ => metadataRow_lt_last left⟩
  | none =>
      constructor
      · intro below
        cases right with
        | some right => exact Std.lt_irrefl (Std.lt_trans below (metadataRow_lt_last right))
        | none => exact Std.lt_irrefl below
      · intro before
        cases before

theorem metadataRow_le_last (endRow : Option String) :
    metadataRow table endRow ≤ metadataRow table none := by
  cases endRow with
  | some endRow => exact Std.le_of_lt (metadataRow_lt_last endRow)
  | none => exact Std.le_refl _

theorem firstMetadataRow_le (endRow : Option String) :
    firstMetadataRow table ≤ metadataRow table endRow := by
  rw [firstMetadataRow_eq]
  cases endRow with
  | some endRow => exact metadataRow_le_metadataRow.mpr (Text.empty_le endRow)
  | none => exact metadataRow_le_last (some "")

/-- The rows between the first and the last metadata row of a table, in byte order. -/
def Spans (table : TableId) (row : String) : Prop :=
  Bytes.ofText (firstMetadataRow table) ≤ Bytes.ofText row ∧
    Bytes.ofText row ≤ Bytes.ofText (metadataRow table none)

theorem spans_iff (named : separator ∉ table.text.toList) :
    Spans table row ↔ ∃ endRow, parseMetadataRow row = .ok (table, endRow) := by
  unfold Spans
  rw [Text.ofText_le_ofText_iff, Text.ofText_le_ofText_iff]
  constructor
  · rintro ⟨above, below⟩
    obtain ⟨endRow, rfl⟩ := eq_metadataRow_of_between above below
    exact ⟨endRow, parseMetadataRow_metadataRow named endRow⟩
  · rintro ⟨endRow, parsed⟩
    rw [(parseMetadataRow_eq_ok_iff.mp parsed).2]
    exact ⟨firstMetadataRow_le endRow, metadataRow_le_last endRow⟩

/-- Metadata rows of tables without a separator in their names tell tables and end rows apart:
what is written reads back, what reads is what would be written, and what reads is marked as
such. In byte order the rows of a table are ordered as its end rows, from the first row on,
and are just the rows that read as the table's, so the rows of two tables do not mix. -/
theorem metadataRows_encode {table other : TableId} (named : separator ∉ table.text.toList)
    (namedOther : separator ∉ other.text.toList) :
    (∀ endRow, parseMetadataRow (metadataRow table endRow) = .ok (table, endRow)) ∧
    (∀ row read endRow, parseMetadataRow row = .ok (read, endRow) →
      separator ∉ read.text.toList ∧ metadataRow read endRow = row) ∧
    (∀ row, (∃ parsed, parseMetadataRow row = .ok parsed) ↔
      separator ∈ row.toList ∨ row.toList.getLast? = some lastMark) ∧
    (∀ left right, Bytes.ofText (metadataRow table left) < Bytes.ofText (metadataRow table right) ↔
      EndsBefore left right) ∧
    (∀ endRow, Bytes.ofText (firstMetadataRow table) ≤ Bytes.ofText (metadataRow table endRow)) ∧
    (∀ row, Spans table row ↔ ∃ endRow, parseMetadataRow row = .ok (table, endRow)) ∧
    (other ≠ table → ∀ row, Spans table row → ¬ Spans other row) := by
  refine ⟨parseMetadataRow_metadataRow named, ?_, fun row => exists_parseMetadataRow_iff, ?_, ?_,
    fun row => spans_iff named, ?_⟩
  · intro row read endRow parsed
    obtain ⟨clean, same⟩ := parseMetadataRow_eq_ok_iff.mp parsed
    exact ⟨clean, same.symm⟩
  · intro left right
    exact Text.ofText_lt_ofText_iff.trans metadataRow_lt_iff
  · intro endRow
    exact Text.ofText_le_ofText_iff.mpr (firstMetadataRow_le endRow)
  · intro different row own others
    obtain ⟨endRow, parsed⟩ := (spans_iff named).mp own
    obtain ⟨endRow', parsed'⟩ := (spans_iff namedOther).mp others
    have same := parsed'.symm.trans parsed
    exact different (congrArg Prod.fst (Except.ok.inj same))

/-- A table whose name ends in the mark of a last tablet, next to one without the mark. -/
theorem metadataRows_encode_marked :
    parseMetadataRow "t;;<" = .ok (⟨"t"⟩, some ";<") ∧ Spans ⟨"t<"⟩ "t<<" ∧
      ¬ Spans ⟨"t"⟩ "t<<" := by
  obtain ⟨reads, _, _, _, _, spans, apart⟩ :=
    @metadataRows_encode ⟨"t<"⟩ ⟨"t"⟩ (by decide) (by decide)
  obtain ⟨readsPlain, _⟩ :=
    @metadataRows_encode ⟨"t"⟩ ⟨"t<"⟩ (by decide) (by decide)
  have own : Spans ⟨"t<"⟩ "t<<" := (spans "t<<").mpr ⟨none, reads none⟩
  exact ⟨readsPlain (some ";<"), own, apart (by decide) "t<<" own⟩

end Tablet

end GuardedRows
