import GuardedRows.Proofs.Text.Order
import GuardedRows.Tablet.Extent

/-!
# The order of metadata rows

The metadata rows of a table whose name has no separator read back, are ordered as the end
rows are, with the missing one last, and are all the rows between the first and the last.
-/

set_option autoImplicit false

namespace GuardedRows.Tablet

variable {table : TableId}

private theorem toList_metadataRow_some (endRow : String) :
    (metadataRow table (some endRow)).toList =
      table.text.toList ++ separator :: endRow.toList := by
  simp [metadataRow]

private theorem toList_metadataRow_none :
    (metadataRow table none).toList = table.text.toList ++ [lastMark] := by
  simp [metadataRow]

theorem parseMetadataRow_metadataRow (named : separator ∉ table.text.toList)
    (endRow : Option String) :
    parseMetadataRow (metadataRow table endRow) = .ok (table, endRow) := by
  unfold parseMetadataRow
  cases endRow with
  | none =>
      have cut : Text.dropEnd? lastMark (metadataRow table none).toList =
          some table.text.toList :=
        Text.dropEnd?_eq_some_iff.mpr toList_metadataRow_none
      have kept : (some table.text.toList).filter (!·.contains separator) =
          some table.text.toList := by
        simp [named]
      simp only [cut, kept, String.ofList_toList]
  | some endRow =>
      have notLast : (Text.dropEnd? lastMark (metadataRow table (some endRow)).toList).filter
          (!·.contains separator) = none := by
        rw [toList_metadataRow_some, Option.filter_eq_none_iff]
        intro rest cut
        have shape := Text.dropEnd?_eq_some_iff.mp cut
        have present : separator ∈ rest ++ [lastMark] := shape ▸ by simp
        have inside : separator ∈ rest := by
          rcases List.mem_append.mp present with inside | last
          · exact inside
          · exact absurd (List.mem_singleton.mp last) (by decide)
        simp [inside]
      have cut : Text.cutFirst separator (metadataRow table (some endRow)).toList =
          some (table.text.toList, endRow.toList) :=
        Text.cutFirst_eq_some_iff.mpr ⟨toList_metadataRow_some endRow, named⟩
      simp only [notLast, cut, String.ofList_toList]

/-- A row reads as a table and an end row just if it is their metadata row and the table can
have one that reads back. -/
theorem parseMetadataRow_eq_ok_iff {row : String} {endRow : Option String} :
    parseMetadataRow row = .ok (table, endRow) ↔
      separator ∉ table.text.toList ∧ row = metadataRow table endRow := by
  constructor
  · intro parsed
    unfold parseMetadataRow at parsed
    cases last : (Text.dropEnd? lastMark row.toList).filter (!·.contains separator) with
    | some name =>
        obtain ⟨cut, clean⟩ := Option.filter_eq_some_iff.mp last
        simp only [last, Except.ok.injEq, Prod.mk.injEq] at parsed
        obtain ⟨rfl, rfl⟩ := parsed
        have shape : row.toList = name ++ [lastMark] := Text.dropEnd?_eq_some_iff.mp cut
        refine ⟨by simpa using clean, String.toList_injective ?_⟩
        rw [shape, toList_metadataRow_none, String.toList_ofList]
    | none =>
        simp only [last] at parsed
        cases cut : Text.cutFirst separator row.toList with
        | none => simp [cut] at parsed
        | some parts =>
            simp only [cut, Except.ok.injEq, Prod.mk.injEq] at parsed
            obtain ⟨rfl, rfl⟩ := parsed
            obtain ⟨shape, clean⟩ := Text.cutFirst_eq_some_iff.mp cut
            refine ⟨by simpa using clean, String.toList_injective ?_⟩
            rw [shape, toList_metadataRow_some, String.toList_ofList, String.toList_ofList]
  · rintro ⟨named, rfl⟩
    exact parseMetadataRow_metadataRow named endRow

theorem metadataRow_injective {left right : Option String}
    (same : metadataRow table left = metadataRow table right) : left = right := by
  have lists := congrArg String.toList same
  cases left with
  | none =>
      cases right with
      | none => rfl
      | some right =>
          simp only [toList_metadataRow_none, toList_metadataRow_some,
            List.append_cancel_left_eq, List.cons.injEq] at lists
          exact absurd lists.1 (by decide)
  | some left =>
      cases right with
      | none =>
          simp only [toList_metadataRow_none, toList_metadataRow_some,
            List.append_cancel_left_eq, List.cons.injEq] at lists
          exact absurd lists.1 (by decide)
      | some right =>
          simp only [toList_metadataRow_some, List.append_cancel_left_eq, List.cons.injEq,
            true_and, String.toList_inj] at lists
          rw [lists]

theorem metadataRow_lt_metadataRow {left right : String} :
    metadataRow table (some left) < metadataRow table (some right) ↔ left < right :=
  Text.append_lt_append_iff _

theorem metadataRow_le_metadataRow {left right : String} :
    metadataRow table (some left) ≤ metadataRow table (some right) ↔ left ≤ right :=
  Text.append_le_append_iff _

theorem metadataRow_lt_last (endRow : String) :
    metadataRow table (some endRow) < metadataRow table none := by
  rw [String.lt_iff, toList_metadataRow_some, toList_metadataRow_none]
  exact List.append_left_lt (List.cons_lt_cons_iff.mpr (.inl (by decide)))

theorem firstMetadataRow_eq : firstMetadataRow table = metadataRow table (some "") := by
  simp [firstMetadataRow, metadataRow]

private theorem between_separator_and_lastMark {front key : List Char}
    (above : ¬ key < front ++ [separator]) (below : ¬ front ++ [lastMark] < key) :
    (∃ rest, key = front ++ separator :: rest) ∨ key = front ++ [lastMark] := by
  induction front generalizing key with
  | nil =>
      cases key with
      | nil => exact absurd (List.nil_lt_cons _ _) above
      | cons head rest =>
          have atLeast : ¬ head < separator := fun smaller =>
            above (List.cons_lt_cons_iff.mpr (.inl smaller))
          have atMost : ¬ lastMark < head := fun larger =>
            below (List.cons_lt_cons_iff.mpr (.inl larger))
          by_cases first : head = separator
          · exact .inl ⟨rest, by rw [first]; rfl⟩
          · have next : lastMark.toNat = separator.toNat + 1 := rfl
            have lower : separator.toNat ≤ head.toNat := Nat.not_lt.mp atLeast
            have upper : head.toNat ≤ lastMark.toNat := Nat.not_lt.mp atMost
            have different : head.toNat ≠ separator.toNat :=
              fun same => first (Char.toNat_inj.mp same)
            have last : head = lastMark := Char.toNat_inj.mp (by omega)
            subst last
            cases rest with
            | nil => exact .inr rfl
            | cons next others =>
                exact absurd (List.cons_lt_cons_iff.mpr (.inr ⟨rfl, List.nil_lt_cons _ _⟩)) below
  | cons first tail ih =>
      cases key with
      | nil => exact absurd (List.nil_lt_cons _ _) above
      | cons head rest =>
          have same : head = first := Char.le_antisymm
            (Char.not_lt.mp fun larger => below (List.cons_lt_cons_iff.mpr (.inl larger)))
            (Char.not_lt.mp fun smaller => above (List.cons_lt_cons_iff.mpr (.inl smaller)))
          subst same
          have restAbove : ¬ rest < tail ++ [separator] := fun smaller =>
            above (List.cons_lt_cons_iff.mpr (.inr ⟨rfl, smaller⟩))
          have restBelow : ¬ tail ++ [lastMark] < rest := fun larger =>
            below (List.cons_lt_cons_iff.mpr (.inr ⟨rfl, larger⟩))
          simpa using ih restAbove restBelow

/-- Every row between the first and the last metadata row of a table is one of its own. -/
theorem eq_metadataRow_of_between {row : String} (above : firstMetadataRow table ≤ row)
    (below : row ≤ metadataRow table none) : ∃ endRow, row = metadataRow table endRow := by
  have lower : ¬ row.toList < table.text.toList ++ [separator] := by
    rw [← String.not_lt, String.lt_iff] at above
    simpa [firstMetadataRow] using above
  have upper : ¬ table.text.toList ++ [lastMark] < row.toList := by
    rw [← String.not_lt, String.lt_iff] at below
    simpa [metadataRow] using below
  rcases between_separator_and_lastMark lower upper with ⟨rest, shape⟩ | shape
  · refine ⟨some (String.ofList rest), String.toList_injective ?_⟩
    rw [toList_metadataRow_some, shape, String.toList_ofList]
  · exact ⟨none, String.toList_injective (shape.trans toList_metadataRow_none.symm)⟩

end GuardedRows.Tablet
