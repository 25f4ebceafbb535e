import GuardedRows.SortedMap.Basic

/-!
# Laws of sorted maps

What each operation does to the value a key is bound to, that a map is determined by those
values, and what a range holds.
-/

set_option autoImplicit false

namespace GuardedRows

namespace SortedMap

variable {κ α : Type} [Ord κ]

theorem lookup_insertBinding [Std.TransOrd κ] (key other : κ) (value : α)
    (bindings : List (κ × α)) :
    lookup other (insertBinding key value bindings) =
      if compare other key = .eq then some value else lookup other bindings := by
  induction bindings with
  | nil => simp [insertBinding, lookup]
  | cons head rest ih =>
      cases order : compare key head.1 with
      | lt => simp [insertBinding, order, lookup]
      | eq =>
          have same : compare other key = compare other head.1 :=
            Std.TransCmp.congr_right order
          by_cases hit : compare other key = .eq
          · simp [insertBinding, order, lookup, hit]
          · have miss : compare other head.1 ≠ .eq := same ▸ hit
            simp [insertBinding, order, lookup, hit, miss]
      | gt =>
          by_cases hit : compare other key = .eq
          · have miss : compare other head.1 ≠ .eq := by
              rw [Std.TransCmp.congr_left hit, order]; decide
            simp [insertBinding, order, lookup, hit, miss, ih]
          · by_cases found : compare other head.1 = .eq <;>
              simp [insertBinding, order, lookup, hit, found, ih]

theorem lookup_eraseBinding [Std.TransOrd κ] (key other : κ) (bindings : List (κ × α)) :
    lookup other (eraseBinding key bindings) =
      if compare other key = .eq then none else lookup other bindings := by
  induction bindings with
  | nil => simp [eraseBinding, lookup]
  | cons head rest ih =>
      simp only [eraseBinding] at ih
      by_cases dropped : compare key head.1 = .eq
      · have same : compare other key = compare other head.1 :=
          Std.TransCmp.congr_right dropped
        by_cases hit : compare other key = .eq
        · simp [eraseBinding, dropped, hit, ih]
        · have miss : compare other head.1 ≠ .eq := same ▸ hit
          simp [eraseBinding, dropped, lookup, hit, miss, ih]
      · by_cases hit : compare other key = .eq
        · have miss : compare other head.1 ≠ .eq := by
            rw [Std.TransCmp.congr_left hit]; exact dropped
          simp [eraseBinding, dropped, lookup, hit, miss, ih]
        · by_cases found : compare other head.1 = .eq <;>
            simp [eraseBinding, dropped, lookup, hit, found, ih]

theorem mem_of_lookup [Std.LawfulEqOrd κ] {key : κ} {value : α} {bindings : List (κ × α)}
    (found : lookup key bindings = some value) : (key, value) ∈ bindings := by
  induction bindings with
  | nil => simp [lookup] at found
  | cons head rest ih =>
      simp only [lookup] at found
      split at found
      · next same =>
          cases found
          have : key = head.1 := Std.LawfulEqOrd.eq_of_compare same
          subst this
          simp
      · exact List.mem_cons_of_mem _ (ih found)

theorem lookup_of_mem [Std.TransOrd κ] {key : κ} {value : α} {bindings : List (κ × α)}
    (ascending : bindings.Pairwise fun left right => compare left.1 right.1 = .lt)
    (member : (key, value) ∈ bindings) : lookup key bindings = some value := by
  induction bindings with
  | nil => simp at member
  | cons head rest ih =>
      obtain ⟨below, restAscending⟩ := List.pairwise_cons.mp ascending
      rcases List.mem_cons.mp member with rfl | member
      · simp [lookup, Std.ReflCmp.compare_self]
      · have above : compare key head.1 = .gt :=
          Std.OrientedCmp.gt_of_lt (below _ member)
        simp [lookup, above, ih restAscending member]

/-! ## Laws of the operations -/

@[simp] theorem get?_empty (key : κ) : (empty : SortedMap κ α).get? key = none := rfl

theorem get?_erase [Std.TransOrd κ] (map : SortedMap κ α) (key other : κ) :
    (map.erase key).get? other =
      if compare other key = .eq then none else map.get? other :=
  lookup_eraseBinding key other map.bindings

@[simp] theorem get?_erase_self [Std.TransOrd κ] (map : SortedMap κ α) (key : κ) :
    (map.erase key).get? key = none := by
  simp [get?_erase, Std.ReflCmp.compare_self]

theorem isEmpty_iff [Std.TransOrd κ] {map : SortedMap κ α} :
    map.isEmpty = true ↔ ∀ key, map.get? key = none := by
  constructor
  · intro none key
    simp [get?, List.isEmpty_iff.mp none, lookup]
  · intro unbound
    refine List.isEmpty_iff.mpr (List.eq_nil_iff_forall_not_mem.mpr fun binding member => ?_)
    cases (lookup_of_mem map.ascending member).symm.trans (unbound binding.1)

theorem keys_ascend (map : SortedMap κ α) :
    map.keys.Pairwise fun left right => compare left right = .lt :=
  List.pairwise_map.mpr map.ascending

section Lawful

variable [Std.TransOrd κ] [Std.LawfulEqOrd κ]

theorem get?_insert (map : SortedMap κ α) (key other : κ) (value : α) :
    (map.insert key value).get? other =
      if compare other key = .eq then some value else map.get? other :=
  lookup_insertBinding key other value map.bindings

@[simp] theorem get?_insert_self (map : SortedMap κ α) (key : κ) (value : α) :
    (map.insert key value).get? key = some value := by
  simp [get?_insert, Std.ReflCmp.compare_self]

theorem get?_insert_of_ne {key other : κ} (different : other ≠ key) (map : SortedMap κ α)
    (value : α) : (map.insert key value).get? other = map.get? other := by
  simp [get?_insert, mt Std.LawfulEqOrd.eq_of_compare different]

theorem get?_erase_of_ne {key other : κ} (different : other ≠ key) (map : SortedMap κ α) :
    (map.erase key).get? other = map.get? other := by
  simp [get?_erase, mt Std.LawfulEqOrd.eq_of_compare different]

theorem mem_toList_iff {map : SortedMap κ α} {key : κ} {value : α} :
    (key, value) ∈ map.toList ↔ map.get? key = some value :=
  ⟨lookup_of_mem map.ascending, mem_of_lookup⟩

theorem mem_keys_iff {map : SortedMap κ α} {key : κ} :
    key ∈ map.keys ↔ (map.get? key).isSome = true := by
  simp only [keys, List.mem_map, Prod.exists, Option.isSome_iff_exists]
  constructor
  · rintro ⟨_, value, member, rfl⟩
    exact ⟨value, mem_toList_iff.mp member⟩
  · rintro ⟨value, bound⟩
    exact ⟨key, value, mem_toList_iff.mpr bound, rfl⟩

theorem isSome_get?_ofList {bindings : List (κ × α)} {key : κ} :
    ((ofList bindings).get? key).isSome = true ↔ key ∈ bindings.map Prod.fst := by
  have grown : ∀ map : SortedMap κ α,
      ((bindings.foldl (fun map binding => map.insert binding.1 binding.2) map).get? key).isSome =
          true ↔ (map.get? key).isSome = true ∨ key ∈ bindings.map Prod.fst := by
    induction bindings with
    | nil => simp
    | cons binding rest ih =>
        intro map
        rw [List.foldl_cons, ih]
        by_cases same : key = binding.1
        · subst same
          simp
        · rw [get?_insert_of_ne same]
          simp [same]
  simpa [ofList] using grown empty

theorem eq_of_ascending_of_mem_iff {left right : List (κ × α)}
    (leftAscending : left.Pairwise fun a b => compare a.1 b.1 = .lt)
    (rightAscending : right.Pairwise fun a b => compare a.1 b.1 = .lt)
    (same : ∀ binding, binding ∈ left ↔ binding ∈ right) : left = right := by
  induction left generalizing right with
  | nil =>
      exact (List.eq_nil_iff_forall_not_mem.mpr fun binding member => by
        simpa using (same binding).mpr member).symm
  | cons head rest ih =>
      cases right with
      | nil => simpa using (same head).mp (by simp)
      | cons head' rest' =>
          obtain ⟨below, restAscending⟩ := List.pairwise_cons.mp leftAscending
          obtain ⟨below', restAscending'⟩ := List.pairwise_cons.mp rightAscending
          have irrefl : ∀ key : κ, compare key key ≠ .lt := fun key => by
            simp [Std.ReflCmp.compare_self]
          have heads : head = head' := by
            rcases List.mem_cons.mp ((same head).mp (by simp)) with equal | inRest'
            · exact equal
            · rcases List.mem_cons.mp ((same head').mpr (by simp)) with equal | inRest
              · exact equal.symm
              · exact absurd (Std.TransCmp.lt_trans (below _ inRest) (below' _ inRest'))
                  (irrefl _)
          subst heads
          congr 1
          refine ih restAscending restAscending' fun binding => ?_
          constructor
          · intro member
            rcases List.mem_cons.mp ((same binding).mp (List.mem_cons_of_mem _ member)) with
              rfl | member'
            · exact absurd (below _ member) (irrefl _)
            · exact member'
          · intro member
            rcases List.mem_cons.mp ((same binding).mpr (List.mem_cons_of_mem _ member)) with
              rfl | member'
            · exact absurd (below' _ member) (irrefl _)
            · exact member'

/-- A map is determined by what its keys are bound to. -/
theorem ext_get? {left right : SortedMap κ α} (same : ∀ key, left.get? key = right.get? key) :
    left = right := by
  have bindings : left.bindings = right.bindings :=
    eq_of_ascending_of_mem_iff left.ascending right.ascending fun binding => by
      obtain ⟨key, value⟩ := binding
      change (key, value) ∈ left.toList ↔ (key, value) ∈ right.toList
      rw [mem_toList_iff, mem_toList_iff, same key]
  cases left
  cases right
  cases bindings
  rfl

private theorem get?_foldl_insert {bindings : List (κ × α)}
    (ascending : bindings.Pairwise fun left right => compare left.1 right.1 = .lt)
    (map : SortedMap κ α) (key : κ) :
    (bindings.foldl (fun map binding => map.insert binding.1 binding.2) map).get? key =
      (lookup key bindings).or (map.get? key) := by
  induction bindings generalizing map with
  | nil => rfl
  | cons head rest ih =>
      obtain ⟨below, restAscending⟩ := List.pairwise_cons.mp ascending
      rw [List.foldl_cons, ih restAscending, get?_insert, lookup]
      split
      · next same =>
          cases again : lookup key rest with
          | none => rfl
          | some value =>
              have above := below _ (mem_of_lookup again)
              rw [Std.OrientedCmp.eq_symm same] at above
              cases above
      · rfl

theorem ofList_toList (map : SortedMap κ α) : ofList map.toList = map := by
  refine ext_get? fun key => ?_
  have made := get?_foldl_insert map.ascending empty key
  rw [get?_empty, Option.or_none] at made
  exact made

end Lawful

end SortedMap

/-! ## Ranges

Reading on from the first admitted key to the first excluded one meets exactly the bindings
that both bounds admit, because the keys ascend.
-/

private theorem dropWhile_eq_filter {α : Type} {begun : α → Bool} {values : List α}
    (lasting : values.Pairwise fun left right => begun left = true → begun right = true) :
    values.dropWhile (fun value => !begun value) = values.filter begun := by
  induction values with
  | nil => rfl
  | cons head rest ih =>
      obtain ⟨heads, tails⟩ := List.pairwise_cons.mp lasting
      cases start : begun head with
      | false => simp [start, ih tails]
      | true =>
          have whole : (head :: rest).filter begun = head :: rest :=
            List.filter_eq_self.mpr fun value member => by
              rcases List.mem_cons.mp member with rfl | member
              · exact start
              · exact heads value member start
          rw [whole]
          simp [start]

private theorem takeWhile_eq_filter {α : Type} {past : α → Bool} {values : List α}
    (lasting : values.Pairwise fun left right => past left = true → past right = true) :
    values.takeWhile (fun value => !past value) = values.filter (fun value => !past value) := by
  induction values with
  | nil => rfl
  | cons head rest ih =>
      obtain ⟨heads, tails⟩ := List.pairwise_cons.mp lasting
      cases stop : past head with
      | false => simp [stop, ih tails]
      | true =>
          have none : rest.filter (fun value => !past value) = [] :=
            List.filter_eq_nil_iff.mpr fun value member => by simp [heads value member stop]
          simp [stop, none]

variable {κ α : Type} [Ord κ] [Std.TransOrd κ]

theorem Bound.begunAt_mono {lower : Bound κ} {left right : κ}
    (order : compare left right = .lt) (begun : lower.begunAt left = true) :
    lower.begunAt right = true := by
  cases lower with
  | unbounded => rfl
  | inclusive least =>
      simp only [begunAt, decide_eq_true_eq, ne_eq] at begun ⊢
      intro above
      exact begun (Std.TransCmp.gt_trans above (Std.OrientedCmp.gt_of_lt order))
  | exclusive below =>
      simp only [begunAt, decide_eq_true_eq] at begun ⊢
      exact Std.TransCmp.lt_trans begun order

theorem Bound.overAt_mono {upper : Bound κ} {left right : κ}
    (order : compare left right = .lt) (past : upper.overAt left = true) :
    upper.overAt right = true := by
  cases upper with
  | unbounded => cases past
  | inclusive greatest =>
      simp only [overAt, decide_eq_true_eq] at past ⊢
      exact Std.TransCmp.gt_trans (Std.OrientedCmp.gt_of_lt order) past
  | exclusive above =>
      simp only [overAt, decide_eq_true_eq, ne_eq] at past ⊢
      intro below
      exact past (Std.TransCmp.lt_trans order below)

namespace SortedMap

theorem range_eq_filter (map : SortedMap κ α) (lower upper : Bound κ) :
    map.range lower upper =
      map.bindings.filter fun binding =>
        !upper.overAt binding.1 && lower.begunAt binding.1 := by
  have begins : map.bindings.Pairwise fun left right =>
      lower.begunAt left.1 = true → lower.begunAt right.1 = true :=
    map.ascending.imp Bound.begunAt_mono
  have ends : (map.bindings.filter fun binding => lower.begunAt binding.1).Pairwise
      fun left right => upper.overAt left.1 = true → upper.overAt right.1 = true :=
    (map.ascending.imp Bound.overAt_mono).filter _
  rw [range, dropWhile_eq_filter begins, takeWhile_eq_filter ends, List.filter_filter]

theorem range_ascending (map : SortedMap κ α) (lower upper : Bound κ) :
    (map.range lower upper).Pairwise fun left right => compare left.1 right.1 = .lt := by
  rw [range_eq_filter]
  exact map.ascending.filter _

theorem mem_range_iff [Std.LawfulEqOrd κ] {map : SortedMap κ α} {lower upper : Bound κ}
    {key : κ} {value : α} :
    (key, value) ∈ map.range lower upper ↔
      map.get? key = some value ∧ lower.begunAt key = true ∧ upper.overAt key = false := by
  have bound : (key, value) ∈ map.bindings ↔ map.get? key = some value := mem_toList_iff
  simp only [range_eq_filter, List.mem_filter, bound, Bool.and_eq_true, Bool.not_eq_true']
  grind

end SortedMap

end GuardedRows
