import GuardedRows.Proofs.Uuid
import GuardedRows.Tx.Id

/-!
# Texts of transaction ids

A text reads as an id if it names the instance and the UUID behind it reads. Ids are ordered
as their own texts are.
-/

set_option autoImplicit false

namespace GuardedRows.Tx

theorem Instance.parse_eq_ok_iff {text : String} {home : Instance} :
    Instance.parse text = .ok home ↔ text = home.text := by
  constructor
  · intro parsed
    unfold parse at parsed
    split at parsed
    · next named =>
        cases parsed
        exact named
    · split at parsed
      · next named =>
          cases parsed
          exact named
      · cases parsed
  · intro named
    rw [named, parse_text]

namespace Id

theorem parseIn_eq_ok_iff {format : Uuid.Format} {text : String} {id : Id} :
    parseIn format text = .ok id ↔ ∃ spelled : String,
      format.parse? spelled = some id.uuid ∧
        text = leading ++ ":" ++ id.home.text ++ ":" ++ spelled := by
  constructor
  · intro parsed
    unfold parseIn at parsed
    split at parsed
    · cases parsed
    · next word rest cutWord =>
        split at parsed
        · cases parsed
        · next home spelled cutHome =>
            split at parsed
            · next leads =>
                split at parsed
                · cases parsed
                · next uuid read =>
                    cases named : Instance.parse (String.ofList home) with
                    | error malformed =>
                        rw [named] at parsed
                        cases parsed
                    | ok instanceRead =>
                        rw [named] at parsed
                        cases parsed
                        obtain ⟨whole, _⟩ := Text.cutFirst_eq_some_iff.mp cutWord
                        obtain ⟨rfl, _⟩ := Text.cutFirst_eq_some_iff.mp cutHome
                        refine ⟨String.ofList spelled, read, String.toList_injective ?_⟩
                        rw [← leads, ← Instance.parse_eq_ok_iff.mp named]
                        simp [whole]
            · cases parsed
  · intro shape
    obtain ⟨spelled, reads, rfl⟩ := shape
    exact parseIn_of_reads reads

/-! ## Order -/

theorem toList_text (id : Id) :
    id.text.toList =
      leading.toList ++ ':' :: (id.home.text.toList ++ ':' :: id.uuid.written) := by
  simp [text, textIn, Uuid.format, Uuid.text]

private theorem home_lt_home : ∀ {left right : Instance}, compare left right = .lt →
    left.text.toList < right.text.toList ∧
      left.text.toList.length = right.text.toList.length := by
  intro left right
  cases left <;> cases right <;> decide

private theorem text_lt_text {left right : Id} (below : compare left right = .lt) :
    left.text < right.text := by
  rw [String.lt_iff, toList_text, toList_text]
  refine List.append_left_lt (List.cons_lt_cons_iff.mpr (.inr ⟨rfl, ?_⟩))
  have parts : (compare left.home right.home).then (compare left.uuid right.uuid) = .lt := below
  rcases Ordering.then_eq_lt.mp parts with home | ⟨same, uuid⟩
  · obtain ⟨smaller, length⟩ := home_lt_home home
    exact Text.append_lt_append_of_lt smaller length _ _
  · have same : left.home = right.home := Std.LawfulEqOrd.eq_of_compare same
    rw [same]
    exact List.append_left_lt
      (List.cons_lt_cons_iff.mpr (.inr ⟨rfl, Uuid.written_lt_written uuid⟩))

/-- Ids are ordered as their texts are. -/
theorem compare_eq_lt_iff {left right : Id} :
    compare left right = .lt ↔ left.text < right.text := by
  constructor
  · exact text_lt_text
  · intro below
    cases order : compare left right with
    | lt => rfl
    | eq =>
        rw [Std.LawfulEqOrd.eq_of_compare order] at below
        exact absurd below (String.lt_irrefl _)
    | gt =>
        have above := text_lt_text (Std.OrientedCmp.lt_of_gt order)
        exact absurd below (String.lt_asymm above)

end Id

end GuardedRows.Tx
