import GuardedRows.Codec.Stored
import GuardedRows.Proofs.Codec.Layout
import GuardedRows.SortedMap.Lemmas

/-!
# The forms of stored values

Every stored value is read back from its form, whatever stands behind it, and no part of the
form that ends early reads.
-/

set_option autoImplicit false

namespace GuardedRows

open Codec

/-! ## Records -/

instance : Lawful Column where
  reads column := reads_readMap _ (column.family, column.qualifier)

theorem Record.ofList_toList (record : Record) :
    Record.ofList record.row record.toList = record := by
  rw [ofList, toList, SortedMap.ofList_toList]

theorem write_cell_ne_nil (cell : Column × Bytes) : write cell ≠ [] := by
  intro empty
  have value : write cell.2 = [] := (List.append_eq_nil_iff.mp empty).2
  have length := length_write_bytes cell.2
  rw [value, List.length_nil] at length
  omega

instance : Lawful Record where
  reads record fits := by
    have whole : (write record.row ++ writeList record.toList).length < UInt64.size := fits
    rw [List.length_append] at whole
    have row := Lawful.reads record.row (Nat.lt_of_le_of_lt (Nat.le_add_right _ _) whole)
    have cells := reads_readList (fun cell _ => write_cell_ne_nil cell)
      (Nat.lt_of_le_of_lt (Nat.le_add_left _ (write record.row).length) whole)
    have read : Reads (do return Record.ofList (← read) (← readList))
        (write record.row ++ writeList record.toList)
        (Record.ofList record.row record.toList) :=
      row.bind (cells.map (Record.ofList record.row))
    rw [record.ofList_toList] at read
    exact read

namespace Tx

instance : Lawful Instance where
  reads home _ := reads_alternative (by cases home <;> decide) (by decide)

instance : Lawful Id where
  reads id := reads_readMap _ (id.home, id.uuid)

instance : Lawful Status where
  reads status _ := reads_alternative (by cases status <;> decide) (by decide)

instance : Lawful LockId where
  reads lock := reads_readMap _ (lock.path, lock.node, lock.session)

instance : Lawful Reservation where
  reads reservation := reads_readMap _ (reservation.lock, reservation.uuid)

instance : Lawful NamedStep where
  reads step := reads_readMap _ step.name

end Tx

instance : Lawful Key where
  reads key := reads_readMap _ (key.row, key.family, key.qualifier)

instance : Lawful RowRange where
  reads range := reads_readMap _
    (range.start, range.startInclusive, range.stop, range.stopInclusive)

instance : Lawful TableId where
  reads table := reads_readMap _ table.text

instance : Lawful NamespaceId where
  reads space := reads_readMap _ space.text

namespace Tablet

instance : Lawful Extent where
  reads extent := reads_readMap _ (extent.table, extent.endRow, extent.previousEndRow)

instance : Lawful OperationKind where
  reads kind _ := reads_alternative (by cases kind <;> decide) (by decide)

instance : Lawful OperationId where
  reads operation := reads_readMap _ (operation.kind, operation.transaction)

instance : Lawful Availability where
  reads availability _ := reads_alternative (by cases availability <;> decide) (by decide)

instance : Lawful AvailabilityChange where
  reads change := reads_readMap _ (change.table, change.space, change.range, change.availability)

end Tablet

instance : Lawful Config where
  reads config := reads_readMap _ (config.maxSteps, config.maxWaitHint, config.minWaitHint,
    config.readinessTimeout, config.readinessMaxDelay)

/-! ## Decoding -/

namespace Codec

/-- The form of a value tells where it ends: whatever stands behind it the value is read, and no
part of it that ends early is the form of anything. -/
structure SelfDelimiting {α : Type} [Codec α] (value : α) : Prop where
  decode_append : ∀ tail, decode (encode value ++ tail) = .ok value
  decode_cut : ∀ part, part <+: encode value → part ≠ encode value →
    (decode part : Except Error α) = .error .undecodable

theorem selfDelimiting {α : Type} [Codec α] [Lawful α] {value : α}
    (fits : (encode value).length < UInt64.size) : SelfDelimiting value := by
  have reads : Reads read (write value) value := Lawful.reads value fits
  constructor
  · intro tail
    have whole : read.run (encode value ++ tail) = some (value, tail) := reads.whole tail
    rw [decode, decode?, whole]
    rfl
  · intro part early short
    have nothing : (read : Reader α).run part = none := reads.cut part early short
    rw [decode, decode?, nothing]
    rfl

end Codec

/-! ## Forms of one length -/

theorem Tx.Id.length_write (id : Tx.Id) : (write id).length = 28 := by
  change (writeAlternative _ id.home ++ write id.uuid).length = 28
  rw [List.length_append, length_writeAlternative, length_write_uuid]

theorem Tablet.OperationId.length_write (operation : Tablet.OperationId) :
    (write operation).length = 32 := by
  change (writeAlternative _ operation.kind ++ write operation.transaction).length = 32
  rw [List.length_append, length_writeAlternative, operation.transaction.length_write]

theorem Config.length_write (config : Config) : (write config).length = 36 := by
  change (Bytes.littleEndian 4 _ ++ (Bytes.littleEndian 8 _ ++ (Bytes.littleEndian 8 _ ++
    (Bytes.littleEndian 8 _ ++ Bytes.littleEndian 8 _)))).length = 36
  simp only [List.length_append, Bytes.length_littleEndian]

theorem Tx.Id.selfDelimiting (id : Tx.Id) : SelfDelimiting id :=
  Codec.selfDelimiting (Nat.lt_of_le_of_lt (Nat.le_of_eq id.length_write) (by decide))

theorem Tablet.OperationId.selfDelimiting (operation : Tablet.OperationId) :
    SelfDelimiting operation :=
  Codec.selfDelimiting (Nat.lt_of_le_of_lt (Nat.le_of_eq operation.length_write) (by decide))

theorem Tx.Status.selfDelimiting (status : Tx.Status) : SelfDelimiting status :=
  Codec.selfDelimiting
    (Nat.lt_of_le_of_lt (Nat.le_of_eq (length_writeAlternative _ status)) (by decide))

theorem Config.selfDelimiting (config : Config) : SelfDelimiting config :=
  Codec.selfDelimiting (Nat.lt_of_le_of_lt (Nat.le_of_eq config.length_write) (by decide))

end GuardedRows
