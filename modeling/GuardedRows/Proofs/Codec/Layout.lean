import GuardedRows.Codec.Basic

/-!
# Readers and what they read

Some bytes are the form of a value for a reader if it takes just these bytes off whatever they
start, and fails on every part of them that ends early. Readers in sequence read forms in
sequence, so the laws of composite values follow the composition of their readers. A length is
written in eight bytes: the form of a value has to be shorter than that can tell.
-/

set_option autoImplicit false

namespace GuardedRows.Codec

variable {α β : Type}

structure Reads (reader : Reader α) (bytes : Bytes) (value : α) : Prop where
  whole : ∀ tail, reader (bytes ++ tail) = some (value, tail)
  cut : ∀ part, part <+: bytes → part ≠ bytes → reader part = none

namespace Reads

theorem bind_apply (first : Reader α) (next : α → Reader β) (bytes : Bytes) :
    (first >>= next) bytes = (first bytes).bind fun taken => next taken.1 taken.2 := rfl

theorem pure (value : α) : Reads (Pure.pure value) [] value where
  whole _ := rfl
  cut _ early short := absurd (List.prefix_nil.mp early) short

theorem bind {first : Reader α} {next : α → Reader β} {front rest : Bytes} {value : α}
    {made : β} (head : Reads first front value) (tail : Reads (next value) rest made) :
    Reads (first >>= next) (front ++ rest) made := by
  constructor
  · intro behind
    rw [bind_apply, List.append_assoc, head.whole]
    exact tail.whole behind
  · intro part early short
    rw [bind_apply]
    have reached : part <+: front ∨ front <+: part :=
      List.prefix_or_prefix_of_prefix early (List.prefix_append front rest)
    rcases reached with within | beyond
    · by_cases same : part = front
      · subst same
        have empty : [] ≠ rest := by
          rintro rfl
          exact short (List.append_nil part).symm
        have read := head.whole []
        rw [List.append_nil] at read
        rw [read]
        exact tail.cut [] List.nil_prefix empty
      · rw [head.cut part within same]
        rfl
    · obtain ⟨more, rfl⟩ := beyond
      rw [head.whole]
      refine tail.cut more ((List.prefix_append_right_inj front).mp early) ?_
      rintro rfl
      exact short rfl

theorem map {reader : Reader α} {bytes : Bytes} {value : α} (reads : Reads reader bytes value)
    (make : α → β) : Reads (do return make (← reader)) bytes (make value) := by
  have mapped : Reads (do return make (← reader)) (bytes ++ []) (make value) :=
    reads.bind (.pure (make value))
  rwa [List.append_nil] at mapped

/-- A value that is checked once it has been read. -/
theorem check {reader : Reader α} {bytes : Bytes} {value : α} {made : β}
    (reads : Reads reader bytes value) {test : α → Option β} (passes : test value = some made) :
    Reads (do StateT.lift (test (← reader))) bytes made := by
  have lifted : Reads (StateT.lift (test value)) [] made := by
    rw [passes]
    exact .pure made
  have checked : Reads (do StateT.lift (test (← reader))) (bytes ++ []) made :=
    reads.bind lifted
  rwa [List.append_nil] at checked

end Reads

/-! ## Numbers and alternatives -/

theorem reads_take (bytes : Bytes) : Reads (take bytes.length) bytes bytes := by
  constructor
  · intro tail
    simp [take]
  · intro part early short
    have less : part.length < bytes.length :=
      Nat.lt_of_le_of_ne early.length_le fun same => short (early.eq_of_length same)
    simp [take, less]

theorem reads_number {width value : Nat} (fits : value < Nat.pow 256 width) :
    Reads (number width) (Bytes.littleEndian width value) value := by
  have taken := (reads_take (Bytes.littleEndian width value)).map Bytes.ofLittleEndian
  rw [Bytes.length_littleEndian, Bytes.ofLittleEndian_littleEndian, Nat.mod_eq_of_lt fits] at taken
  exact taken

theorem reads_alternative [DecidableEq α] {values : List α} {value : α}
    (member : value ∈ values) (few : values.length ≤ Nat.pow 256 4) :
    Reads (alternative values) (writeAlternative values value) value := by
  have index : values.idxOf value < values.length := List.idxOf_lt_length_iff.mpr member
  have found : values[values.idxOf value]? = some value := by
    rw [List.getElem?_eq_getElem index, List.getElem_idxOf]
  exact (reads_number (Nat.lt_of_lt_of_le index few)).check found

@[simp] theorem length_writeAlternative [DecidableEq α] (values : List α) (value : α) :
    (writeAlternative values value).length = 4 :=
  Bytes.length_littleEndian _ _

/-! ## Lawful forms -/

/-- A type whose values are read from what is written, if the lengths in it can be written. -/
class Lawful (α : Type) [Codec α] : Prop where
  reads : ∀ value : α, (write value).length < UInt64.size → Reads read (write value) value

instance : Lawful UInt32 where
  reads value _ := by
    have fits : value.toNat < Nat.pow 256 4 := value.toNat_lt
    have taken := (reads_number fits).map UInt32.ofNat
    rwa [UInt32.ofNat_toNat] at taken

instance : Lawful UInt64 where
  reads value _ := by
    have fits : value.toNat < Nat.pow 256 8 := value.toNat_lt
    have taken := (reads_number fits).map UInt64.ofNat
    rwa [UInt64.ofNat_toNat] at taken

theorem reads_mark {mark : Nat} (fits : mark < 256) :
    Reads (number 1) [UInt8.ofNat mark] mark :=
  reads_number (Nat.lt_of_lt_of_eq fits (Nat.pow_one 256).symm)

instance : Lawful Bool where
  reads value _ := by
    cases value with
    | false => exact (reads_mark (by decide : 0 < 256)).bind (.pure false)
    | true => exact (reads_mark (by decide : 1 < 256)).bind (.pure true)

/-! ## Sequences -/

theorem length_write_bytes (bytes : Bytes) : (write bytes).length = 8 + bytes.length := by
  change (Bytes.littleEndian 8 bytes.length ++ bytes).length = _
  simp

instance : Lawful Bytes where
  reads bytes fits := by
    rw [length_write_bytes] at fits
    have length : bytes.length < Nat.pow 256 8 := Nat.lt_of_le_of_lt (Nat.le_add_left _ 8) fits
    exact (reads_number length).bind (reads_take bytes)

instance : Lawful String where
  reads text fits := (Lawful.reads (Bytes.ofText text) fits).check (Bytes.text?_ofText text)

@[simp] theorem length_write_uuid (uuid : Uuid) : (write uuid).length = 24 := by
  change (write uuid.bytes).length = 24
  rw [length_write_bytes, uuid.length_bytes]

instance : Lawful Uuid where
  reads uuid fits := (Lawful.reads uuid.bytes fits).check (Uuid.ofBytes?_bytes uuid)

section Composite

variable [Codec α] [Lawful α]

instance : Lawful (Option α) where
  reads value fits := by
    cases value with
    | none => exact (reads_mark (by decide : 0 < 256)).bind (.pure none)
    | some value =>
        have less : (write value).length < UInt64.size :=
          Nat.lt_of_le_of_lt (Nat.le_succ _) fits
        have taken := (Lawful.reads value less).map some
        exact (reads_mark (by decide : 1 < 256)).bind taken

instance [Codec β] [Lawful β] : Lawful (α × β) where
  reads pair fits := by
    have whole : (write pair.1 ++ write pair.2).length < UInt64.size := fits
    rw [List.length_append] at whole
    have first := Lawful.reads pair.1 (Nat.lt_of_le_of_lt (Nat.le_add_right _ _) whole)
    have second := Lawful.reads pair.2 (Nat.lt_of_le_of_lt (Nat.le_add_left _ _) whole)
    exact first.bind (second.map fun value => (pair.1, value))

theorem reads_readMany {values : List α}
    (fits : (values.flatMap write).length < UInt64.size) :
    Reads (readMany values.length) (values.flatMap write) values := by
  induction values with
  | nil => exact .pure []
  | cons value rest ih =>
      rw [List.flatMap_cons, List.length_append] at fits
      have first := Lawful.reads value (Nat.lt_of_le_of_lt (Nat.le_add_right _ _) fits)
      have others := ih (Nat.lt_of_le_of_lt (Nat.le_add_left _ _) fits)
      exact first.bind (others.map (value :: ·))

/-- A list is read back if each of its values takes some room, so that their number fits. -/
theorem reads_readList {values : List α} (occupied : ∀ value ∈ values, write value ≠ [])
    (fits : (writeList values).length < UInt64.size) :
    Reads readList (writeList values) values := by
  have whole : 8 + (values.flatMap write).length < UInt64.size := by
    simpa [writeList] using fits
  have room : values.length ≤ (values.flatMap write).length := by
    clear fits whole
    induction values with
    | nil => exact Nat.le_refl 0
    | cons value rest ih =>
        have taken := List.length_pos_iff.mpr (occupied value List.mem_cons_self)
        have others := ih fun other member => occupied other (List.mem_cons_of_mem value member)
        rw [List.flatMap_cons, List.length_append, List.length_cons]
        omega
  have count : values.length < Nat.pow 256 8 := by
    have size : Nat.pow 256 8 = UInt64.size := rfl
    omega
  exact (reads_number count).bind (reads_readMany (Nat.lt_of_le_of_lt (Nat.le_add_left _ 8) whole))

/-- A value that is written as the fields it is made of is made of them again. -/
theorem reads_readMap (make : α → β) (fields : α)
    (fits : (write fields).length < UInt64.size) :
    Reads (readMap make) (write fields) (make fields) :=
  (Lawful.reads fields fits).map make

end Composite

end GuardedRows.Codec
