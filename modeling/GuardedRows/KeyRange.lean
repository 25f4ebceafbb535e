import GuardedRows.Record

/-!
# Keys and ranges of keys

The data of a table is sorted by key: row, then column family, then qualifier. A range has
an optional bound on either side, and each bound counts as inside or outside by itself.
-/

set_option autoImplicit false

namespace GuardedRows

structure Key where
  row : String
  family : String
  qualifier : String
  deriving DecidableEq

namespace Key

instance : Ord Key :=
  ⟨compareLex (compareOn row) (compareLex (compareOn family) (compareOn qualifier))⟩

instance : Std.TransOrd Key :=
  inferInstanceAs (Std.TransCmp (compareLex (compareOn Key.row)
    (compareLex (compareOn Key.family) (compareOn Key.qualifier))))

instance : Std.LawfulEqOrd Key where
  eq_of_compare {left right} order := by
    obtain ⟨row, columns⟩ := compareLex_eq_eq.mp order
    obtain ⟨family, qualifier⟩ := compareLex_eq_eq.mp columns
    cases left
    cases right
    cases (Std.LawfulEqOrd.eq_of_compare row : _ = _)
    cases (Std.LawfulEqOrd.eq_of_compare family : _ = _)
    cases (Std.LawfulEqOrd.eq_of_compare qualifier : _ = _)
    rfl

def firstOf (row : String) : Key := ⟨row, "", ""⟩

/-- The first key of the row that comes right after this key's row. No row lies between a
row and the same row with a zero character behind it. -/
def followingRow (key : Key) : Key := .firstOf (key.row.push '\x00')

def before (left right : Key) : Bool := compare left right = .lt

def text (key : Key) : String := key.row ++ " " ++ key.family ++ ":" ++ key.qualifier

end Key

structure RowRange where
  start : Option Key
  startInclusive : Bool
  stop : Option Key
  stopInclusive : Bool
  deriving DecidableEq

namespace RowRange

def all : RowRange := ⟨none, true, none, true⟩

/-- The keys of whole rows. A bound on rows becomes a bound on keys: a row that is inside
at the end, or outside at the start, is passed with all its columns. -/
def ofRows (start : Option String) (startInclusive : Bool) (stop : Option String)
    (stopInclusive : Bool) : RowRange where
  start := start.map fun row =>
    if startInclusive then .firstOf row else (Key.firstOf row).followingRow
  startInclusive := true
  stop := stop.map fun row =>
    if stopInclusive then (Key.firstOf row).followingRow else .firstOf row
  stopInclusive := false

def afterEnd (range : RowRange) (key : Key) : Bool :=
  match range.stop with
  | none => false
  | some stop => if range.stopInclusive then stop.before key else !key.before stop

def beforeStart (range : RowRange) (key : Key) : Bool :=
  match range.start with
  | none => false
  | some start => if range.startInclusive then key.before start else !start.before key

def contains (range : RowRange) (key : Key) : Bool :=
  !range.beforeStart key && !range.afterEnd key

def text (range : RowRange) : String :=
  let start :=
    match range.start with
    | some key => (if range.startInclusive then "[" else "(") ++ key.text
    | none => "(-inf"
  let stop :=
    match range.stop with
    | some key => key.text ++ (if range.stopInclusive then "]" else ")")
    | none => "+inf)"
  start ++ "," ++ stop

end RowRange

end GuardedRows
