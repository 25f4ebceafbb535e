/-!
# Sorted maps

A finite map is the list of its bindings in strictly ascending key order, so that two
maps with the same bindings are the same map and the order of its bindings is the order
of its keys. Every operation is one pass over the list.
-/

set_option autoImplicit false

namespace GuardedRows

/-- A finite map from `κ` to `α`, listed in strictly ascending key order. -/
structure SortedMap (κ α : Type) [Ord κ] where
  bindings : List (κ × α)
  ascending : bindings.Pairwise fun left right => compare left.1 right.1 = .lt
  deriving DecidableEq

namespace SortedMap

/-! ## Passes over a list of bindings -/

def lookup {κ α : Type} [Ord κ] (key : κ) : List (κ × α) → Option α
  | [] => none
  | binding :: rest =>
      if compare key binding.1 = .eq then some binding.2 else lookup key rest

def insertBinding {κ α : Type} [Ord κ] (key : κ) (value : α) :
    List (κ × α) → List (κ × α)
  | [] => [(key, value)]
  | binding :: rest =>
      match compare key binding.1 with
      | .lt => (key, value) :: binding :: rest
      | .eq => (key, value) :: rest
      | .gt => binding :: insertBinding key value rest

def eraseBinding {κ α : Type} [Ord κ] (key : κ) (bindings : List (κ × α)) :
    List (κ × α) :=
  bindings.filter fun binding => compare key binding.1 != .eq

theorem mem_insertBinding {κ α : Type} [Ord κ] {key : κ} {value : α} {binding : κ × α}
    {bindings : List (κ × α)} (member : binding ∈ insertBinding key value bindings) :
    binding = (key, value) ∨ binding ∈ bindings := by
  induction bindings with
  | nil => simpa [insertBinding] using member
  | cons head rest ih =>
      simp only [insertBinding] at member
      split at member <;> grind

theorem ascending_insertBinding {κ α : Type} [Ord κ] [Std.TransOrd κ] [Std.LawfulEqOrd κ]
    (key : κ) (value : α) {bindings : List (κ × α)}
    (ascending : bindings.Pairwise fun left right => compare left.1 right.1 = .lt) :
    (insertBinding key value bindings).Pairwise
      fun left right => compare left.1 right.1 = .lt := by
  induction bindings with
  | nil => simp [insertBinding]
  | cons head rest ih =>
      obtain ⟨below, restAscending⟩ := List.pairwise_cons.mp ascending
      cases order : compare key head.1 with
      | lt =>
          simp only [insertBinding, order]
          refine List.pairwise_cons.mpr ⟨fun binding member => ?_, ascending⟩
          rcases List.mem_cons.mp member with rfl | member
          · exact order
          · exact Std.TransCmp.lt_trans order (below binding member)
      | eq =>
          simp only [insertBinding, order]
          refine List.pairwise_cons.mpr ⟨fun binding member => ?_, restAscending⟩
          have same : key = head.1 := Std.LawfulEqOrd.eq_of_compare order
          exact same ▸ below binding member
      | gt =>
          simp only [insertBinding, order]
          refine List.pairwise_cons.mpr ⟨fun binding member => ?_, ih restAscending⟩
          rcases mem_insertBinding member with rfl | member
          · exact Std.OrientedCmp.gt_iff_lt.mp order
          · exact below binding member

/-! ## Maps -/

variable {κ α : Type} [Ord κ]

def empty : SortedMap κ α := ⟨[], .nil⟩

instance : EmptyCollection (SortedMap κ α) := ⟨empty⟩

instance : Inhabited (SortedMap κ α) := ⟨empty⟩

def get? (map : SortedMap κ α) (key : κ) : Option α := lookup key map.bindings

def contains (map : SortedMap κ α) (key : κ) : Bool := (map.get? key).isSome

def insert [Std.TransOrd κ] [Std.LawfulEqOrd κ] (map : SortedMap κ α) (key : κ) (value : α) :
    SortedMap κ α :=
  ⟨insertBinding key value map.bindings, ascending_insertBinding key value map.ascending⟩

def erase (map : SortedMap κ α) (key : κ) : SortedMap κ α :=
  ⟨eraseBinding key map.bindings, map.ascending.filter _⟩

def ofList [Std.TransOrd κ] [Std.LawfulEqOrd κ] (bindings : List (κ × α)) : SortedMap κ α :=
  bindings.foldl (fun map binding => map.insert binding.1 binding.2) empty

def toList (map : SortedMap κ α) : List (κ × α) := map.bindings

def keys (map : SortedMap κ α) : List κ := map.bindings.map Prod.fst

def values (map : SortedMap κ α) : List α := map.bindings.map Prod.snd

def size (map : SortedMap κ α) : Nat := map.bindings.length

def isEmpty (map : SortedMap κ α) : Bool := map.bindings.isEmpty

end SortedMap

/-! ## Ranges

A range of bindings is found by going to the first key that the lower bound admits and
reading on up to the first key that the upper bound excludes.
-/

inductive Bound (κ : Type) where
  | unbounded
  | inclusive (key : κ)
  | exclusive (key : κ)
  deriving DecidableEq

def Bound.begunAt {κ : Type} [Ord κ] (lower : Bound κ) (key : κ) : Bool :=
  match lower with
  | .unbounded => true
  | .inclusive least => compare least key ≠ .gt
  | .exclusive below => compare below key = .lt

def Bound.overAt {κ : Type} [Ord κ] (upper : Bound κ) (key : κ) : Bool :=
  match upper with
  | .unbounded => false
  | .inclusive greatest => compare key greatest = .gt
  | .exclusive above => compare key above ≠ .lt

/-- The bindings between two bounds in ascending key order. There are none when the lower
bound lies above the upper one. -/
def SortedMap.range {κ α : Type} [Ord κ] (map : SortedMap κ α) (lower upper : Bound κ) :
    List (κ × α) :=
  (map.bindings.dropWhile fun binding => !lower.begunAt binding.1).takeWhile
    fun binding => !upper.overAt binding.1

end GuardedRows
