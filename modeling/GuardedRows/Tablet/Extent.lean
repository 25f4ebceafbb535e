import GuardedRows.Text

/-!
# Tablet extents

A table is cut into tablets at end rows. A tablet holds the rows after the end row of the
tablet before it, up to and including its own; a missing end row is no bound. The metadata
of a tablet has its row from the table and the tablet's end row, so that in row order the
tablets of a table follow each other and the last one comes last.
-/

set_option autoImplicit false

namespace GuardedRows

structure TableId where
  text : String
  deriving DecidableEq

namespace TableId

instance : Ord TableId := ⟨compareOn text⟩

instance : Std.TransOrd TableId := inferInstanceAs (Std.TransCmp (compareOn TableId.text))

instance : Std.LawfulEqOrd TableId where
  eq_of_compare {left right} order := by
    have same : left.text = right.text :=
      Std.LawfulEqOrd.eq_of_compare (show compare left.text right.text = .eq from order)
    cases left
    cases right
    cases same
    rfl

end TableId

structure NamespaceId where
  text : String
  deriving DecidableEq

namespace NamespaceId

instance : Ord NamespaceId := ⟨compareOn text⟩

instance : Std.TransOrd NamespaceId :=
  inferInstanceAs (Std.TransCmp (compareOn NamespaceId.text))

instance : Std.LawfulEqOrd NamespaceId where
  eq_of_compare {left right} order := by
    have same : left.text = right.text :=
      Std.LawfulEqOrd.eq_of_compare (show compare left.text right.text = .eq from order)
    cases left
    cases right
    cases same
    rfl

end NamespaceId

namespace Tablet

def separator : Char := ';'

/-- Stands behind the table when there is no end row. It sorts after the separator. -/
def lastMark : Char := '<'

def metadataRow (table : TableId) : Option String → String
  | some endRow => table.text.push separator ++ endRow
  | none => table.text.push lastMark

def firstMetadataRow (table : TableId) : String := table.text.push separator

/-- Reads a metadata row back. A row that ends in the mark of the last tablet and has no
separator belongs to a last tablet; any other is cut at its first separator. -/
def parseMetadataRow (row : String) : Except Malformed (TableId × Option String) :=
  let asLast := (Text.dropEnd? lastMark row.toList).filter (!·.contains separator)
  match asLast with
  | some table => .ok (⟨String.ofList table⟩, none)
  | none =>
      match Text.cutFirst separator row.toList with
      | some (table, endRow) => .ok (⟨String.ofList table⟩, some (String.ofList endRow))
      | none => .error (.metadataRow row)

structure Extent where
  table : TableId
  endRow : Option String
  previousEndRow : Option String
  deriving DecidableEq

namespace Extent

def metadataRow (extent : Extent) : String := Tablet.metadataRow extent.table extent.endRow

def contains (extent : Extent) (row : String) : Bool :=
  extent.previousEndRow.all (· < row) && extent.endRow.all (row ≤ ·)

def text (extent : Extent) : String :=
  let shown (row : Option String) : String := row.getD lastMark.toString
  extent.table.text ++ ";" ++ shown extent.endRow ++ ";" ++ shown extent.previousEndRow

end Extent

end Tablet

end GuardedRows
