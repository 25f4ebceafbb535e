import GuardedRows.Proofs.Tx.CanonicalSteps
import GuardedRows.Proofs.Tx.Records

/-!
# Edits as a transaction shows them

A snapshot has one field for each fact about a transaction, and a list of edits leaves in every
field what the last edit leaves there that touches it. The cells of a record follow the edits
one write after another, each cell reads as its field alone, and so the fields follow the edits
as well: reading after editing is editing what was read.
-/

set_option autoImplicit false

namespace GuardedRows.Tx

/-! ## What edits leave in a field -/

/-- What the last edit that touches a field leaves in it, and what the field held if none
does. -/
def lastly {α : Type} (effect : Edit → Option α) (edits : List Edit) (held : α) : α :=
  (edits.reverse.findSome? effect).getD held

theorem lastly_cons {α : Type} (effect : Edit → Option α) (edit : Edit) (rest : List Edit)
    (held : α) : lastly effect (edit :: rest) held =
      lastly effect rest ((effect edit).getD held) := by
  unfold lastly
  rw [List.reverse_cons, List.findSome?_append]
  cases rest.reverse.findSome? effect with
  | some value => rfl
  | none => cases first : effect edit <;> simp [first]

theorem lastly_of_untouched {α : Type} {effect : Edit → Option α} {edits : List Edit}
    (untouched : ∀ edit ∈ edits, effect edit = none) (held : α) :
    lastly effect edits held = held := by
  have nothing : edits.reverse.findSome? effect = none :=
    List.findSome?_eq_none_iff.mpr fun edit member => untouched edit (List.mem_reverse.mp member)
  rw [lastly, nothing]
  rfl

/-- What is left was held before, or some edit leaves it. -/
theorem lastly_cases {α : Type} (effect : Edit → Option α) (edits : List Edit) (held : α) :
    lastly effect edits held = held ∨
      ∃ edit ∈ edits, effect edit = some (lastly effect edits held) := by
  unfold lastly
  cases found : edits.reverse.findSome? effect with
  | none => exact .inl rfl
  | some value =>
      obtain ⟨edit, member, left⟩ := List.exists_of_findSome?_eq_some found
      exact .inr ⟨edit, List.mem_reverse.mp member, left⟩

/-- Two effects that keep two values related edit by edit keep them related. -/
theorem lastly_related {α β : Type} {related : α → β → Prop} {effect : Edit → Option α}
    {effect' : Edit → Option β}
    (step : ∀ edit held held', related held held' →
      related ((effect edit).getD held) ((effect' edit).getD held'))
    (edits : List Edit) {held : α} {held' : β} (start : related held held') :
    related (lastly effect edits held) (lastly effect' edits held') := by
  induction edits generalizing held held' with
  | nil => exact start
  | cons edit rest ih =>
      rw [lastly_cons, lastly_cons]
      apply ih
      exact step edit held held' start

theorem lastly_map {α β : Type} {view : α → β} {effect : Edit → Option α}
    {effect' : Edit → Option β} (same : ∀ edit, effect' edit = (effect edit).map view)
    (edits : List Edit) (held : α) :
    view (lastly effect edits held) = lastly effect' edits (view held) := by
  apply @lastly_related α β fun value value' => view value = value'
  · rintro edit value _ rfl
    rw [same]
    cases effect edit <;> rfl
  · rfl

def readFlag (text : String) : Bool := text = "true"

namespace Edit

def onStatus : Edit → Option (Option Status)
  | .putStatus status => some (some status)
  | .delete => some none
  | _ => none

def onCreateTime : Edit → Option (Option UInt64)
  | .putCreateTime milliseconds => some (some milliseconds)
  | .delete => some none
  | .putStatus _ | .putInfo .. | .putStep .. | .deleteStep _ | .reserve _ | .release _
  | .requireStatus _ | .requireAbsent | .requireUnreserved | .requireReserved _ => none

def onInfo (info : Info) : Edit → Option (Option String)
  | .putInfo written value => if written = info then some (some value) else none
  | .delete => some none
  | _ => none

def onAutoClean (edit : Edit) : Option (Option Bool) :=
  (edit.onInfo .autoClean).map fun value => value.map readFlag

def onReservation : Edit → Option (Option Reservation)
  | .reserve reservation => some (some reservation)
  | .release _ | .delete => some none
  | _ => none

def onStep (position : UInt32) : Edit → Option (Option Bytes)
  | .putStep written step => if written = position then some (some step) else none
  | .deleteStep deleted => if deleted = position then some none else none
  | .delete => some none
  | .putStatus _ | .putCreateTime _ | .putInfo .. | .reserve _ | .release _
  | .requireStatus _ | .requireAbsent | .requireUnreserved | .requireReserved _ => none

@[simp] theorem onAutoClean_putAutoClean (autoClean : Bool) :
    (putAutoClean autoClean).onAutoClean = some (some autoClean) := by
  cases autoClean <;> decide

end Edit

/-- A snapshot after some edits, by the snapshot before them. -/
structure Snapshot.Edited (edits : List Edit) (before after : Snapshot) : Prop where
  id : after.id = before.id
  status : after.status = lastly Edit.onStatus edits before.status
  createTime : after.createTime = lastly Edit.onCreateTime edits before.createTime
  name : after.name = lastly (Edit.onInfo .name) edits before.name
  autoClean : after.autoClean = lastly Edit.onAutoClean edits before.autoClean
  exception : after.exception = lastly (Edit.onInfo .exception) edits before.exception
  returnValue : after.returnValue = lastly (Edit.onInfo .returnValue) edits before.returnValue
  reservation : after.reservation.map Reservation.text =
    (lastly Edit.onReservation edits before.reservation).map Reservation.text
  reservationKept : (∀ edit ∈ edits, edit.onReservation = none) →
    after.reservation = before.reservation
  steps : ∀ position, after.step? position =
    lastly (Edit.onStep position) edits (before.step? position)
  descending : after.steps.Pairwise fun upper lower => lower.1 < upper.1

/-- No field of a snapshot has a value left after some edits. -/
structure Snapshot.Emptied (edits : List Edit) (before : Snapshot) : Prop where
  status : lastly Edit.onStatus edits before.status = none
  createTime : lastly Edit.onCreateTime edits before.createTime = none
  name : lastly (Edit.onInfo .name) edits before.name = none
  autoClean : lastly Edit.onAutoClean edits before.autoClean = none
  exception : lastly (Edit.onInfo .exception) edits before.exception = none
  returnValue : lastly (Edit.onInfo .returnValue) edits before.returnValue = none
  reservation : lastly Edit.onReservation edits before.reservation = none
  steps : ∀ position, lastly (Edit.onStep position) edits (before.step? position) = none

/-! ## What a cell reads as -/

/-- The text in a cell. Bytes that are not UTF-8 count as absent. -/
def cellText (cell : Option Bytes) : Option String := cell.bind Bytes.text?

def cellReservation (cell : Option Bytes) : Except Malformed (Option Reservation) :=
  match cellText cell with
  | none => .ok none
  | some text => (Reservation.parse text).map some

@[simp] theorem cellText_ofText (text : String) :
    cellText (some (Bytes.ofText text)) = some text :=
  Bytes.text?_ofText text

/-- The row and the cells of a record read as the fields of a snapshot. -/
structure Snapshot.Describes (snapshot : Snapshot) (record : Record) : Prop where
  id : Id.parse record.row = .ok snapshot.id
  reservation : cellReservation (record.get? reservationColumn) = .ok snapshot.reservation
  steps : readSteps (record.family stepFamily) = .ok snapshot.steps
  status : snapshot.status = (cellText (record.get? statusColumn)).map readStatus
  createTime : snapshot.createTime =
    (cellText (record.get? createTimeColumn)).bind (Text.word64? 10)
  name : snapshot.name = cellText (record.get? Info.name.column)
  autoClean : snapshot.autoClean =
    (cellText (record.get? Info.autoClean.column)).map readFlag
  exception : snapshot.exception = cellText (record.get? Info.exception.column)
  returnValue : snapshot.returnValue = cellText (record.get? Info.returnValue.column)

theorem Snapshot.describes_iff {snapshot : Snapshot} {record : Record} :
    snapshot.Describes record ↔ ofRecord record = .ok snapshot := by
  constructor
  · intro describes
    have reserved : readReservation record = .ok snapshot.reservation := describes.reservation
    unfold ofRecord
    rw [describes.id, reserved, describes.steps]
    obtain ⟨_, _, _, status, createTime, name, autoClean, exception, returnValue⟩ := describes
    cases snapshot
    cases status
    cases createTime
    cases name
    cases autoClean
    cases exception
    cases returnValue
    rfl
  · intro read
    unfold ofRecord at read
    obtain ⟨id, parsed, read⟩ := StoreStep.exists_of_bind read
    obtain ⟨reservation, reserved, read⟩ := StoreStep.exists_of_bind read
    obtain ⟨steps, stepped, read⟩ := StoreStep.exists_of_bind read
    cases read
    exact ⟨parsed, reserved, stepped, rfl, rfl, rfl, rfl, rfl, rfl⟩

/-! ## Cells after edits -/

/-- A fact about a transaction that has a column of its own. -/
inductive Field where
  | status
  | createTime
  | reservation
  | info (info : Info)
  | step (position : UInt32)
  deriving DecidableEq

theorem Info.column_injective {left right : Info} (same : left.column = right.column) :
    left = right := by
  cases left <;> cases right <;> first | rfl | exact absurd same (by decide)

namespace Field

def column : Field → Column
  | .status => statusColumn
  | .createTime => createTimeColumn
  | .reservation => reservationColumn
  | .info detail => detail.column
  | .step position => stepColumn position

def family : Field → String
  | .status | .createTime | .reservation => factFamily
  | .info _ => infoFamily
  | .step _ => stepFamily

theorem family_column (field : Field) : field.column.family = field.family := by
  cases field with
  | info detail => cases detail <;> rfl
  | _ => rfl

theorem column_injective {left right : Field} (same : left.column = right.column) :
    left = right := by
  have families : left.family = right.family := by
    rw [← family_column, same, family_column]
  cases left with
  | info detail =>
      cases right with
      | info other => rw [Info.column_injective same]
      | step position => exact absurd families (show infoFamily ≠ stepFamily by decide)
      | _ => exact absurd families (show infoFamily ≠ factFamily by decide)
  | step position =>
      cases right with
      | info other => exact absurd families (show stepFamily ≠ infoFamily by decide)
      | step other => rw [stepColumn_injective same]
      | _ => exact absurd families (show stepFamily ≠ factFamily by decide)
  | _ =>
      cases right with
      | info other => exact absurd families (show factFamily ≠ infoFamily by decide)
      | step position => exact absurd families (show factFamily ≠ stepFamily by decide)
      | _ => first | rfl | exact absurd same (by decide)

end Field

/-- What an edit leaves in the column of a field, if it touches it. -/
def Edit.onField (field : Field) : Edit → Option (Option Bytes)
  | .putStatus status =>
      if .status = field then some (some (Bytes.ofText status.text)) else none
  | .putCreateTime milliseconds =>
      if .createTime = field then
        some (some (Bytes.ofText (Text.decimal milliseconds.toNat)))
      else none
  | .putInfo info value => if .info info = field then some (some (Bytes.ofText value)) else none
  | .putStep position step => if .step position = field then some (some step) else none
  | .deleteStep position => if .step position = field then some none else none
  | .reserve reservation =>
      if .reservation = field then some (some (Bytes.ofText reservation.text)) else none
  | .release _ => if .reservation = field then some none else none
  | .delete => some none
  | .requireStatus _ | .requireAbsent | .requireUnreserved | .requireReserved _ => none

namespace Edit

variable (edit : Edit) (field : Field) (cell : Option Bytes)

private theorem onCell_put (target : Field) (value : Bytes) :
    Write.onCell field.column cell (.put target.column value) =
      (if target = field then some (some value) else none).getD cell := by
  by_cases same : target = field
  · subst same
    simp [Write.onCell]
  · simp [Write.onCell, same, mt Field.column_injective same]

private theorem onCell_delete (target : Field) :
    Write.onCell field.column cell (.delete target.column) =
      (if target = field then some none else none).getD cell := by
  by_cases same : target = field
  · subst same
    simp [Write.onCell]
  · simp [Write.onCell, same, mt Field.column_injective same]

/-- No edit writes to a column of another field than its own. -/
theorem foldl_onCell :
    edit.writes.foldl (Write.onCell field.column) cell = (edit.onField field).getD cell := by
  cases edit with
  | putStatus status => exact onCell_put field cell .status _
  | putCreateTime milliseconds => exact onCell_put field cell .createTime _
  | putInfo info value => exact onCell_put field cell (.info info) _
  | putStep position step => exact onCell_put field cell (.step position) step
  | deleteStep position => exact onCell_delete field cell (.step position)
  | reserve reservation => exact onCell_put field cell .reservation _
  | release reservation => exact onCell_delete field cell .reservation
  | _ => rfl

theorem foldl_onCell_flatMap (edits : List Edit) :
    (edits.flatMap writes).foldl (Write.onCell field.column) cell =
      lastly (onField field) edits cell := by
  induction edits generalizing cell with
  | nil => rfl
  | cons edit rest ih =>
      rw [List.flatMap_cons, List.foldl_append, lastly_cons, foldl_onCell]
      exact ih _

theorem exists_field_of_put {column : Column} {value : Bytes}
    (member : .put column value ∈ edit.writes) : ∃ field : Field, column = field.column := by
  have only : ∀ (field : Field) (stored : Bytes),
      .put column value ∈ [Write.put field.column stored] → column = field.column := by
    intro field stored among
    cases List.mem_singleton.mp among
    rfl
  cases edit with
  | putStatus status => exact ⟨.status, only .status _ member⟩
  | putCreateTime milliseconds => exact ⟨.createTime, only .createTime _ member⟩
  | putInfo info stored => exact ⟨.info info, only (.info info) _ member⟩
  | putStep position step => exact ⟨.step position, only (.step position) step member⟩
  | reserve reservation => exact ⟨.reservation, only .reservation _ member⟩
  | _ => simp [writes] at member

/-! ## Fields after edits -/

theorem onStatus_eq : edit.onStatus =
    (edit.onField .status).map fun cell => (cellText cell).map Snapshot.readStatus := by
  cases edit with
  | putStatus status => simp [onStatus, onField, Snapshot.readStatus]
  | _ => rfl

theorem onCreateTime_eq : edit.onCreateTime =
    (edit.onField .createTime).map fun cell => (cellText cell).bind (Text.word64? 10) := by
  cases edit with
  | putCreateTime milliseconds => simp [onCreateTime, onField]
  | _ => rfl

theorem onInfo_eq (info : Info) :
    edit.onInfo info = (edit.onField (.info info)).map cellText := by
  cases edit with
  | putInfo written value => by_cases same : written = info <;> simp [onInfo, onField, same]
  | _ => rfl

theorem onAutoClean_eq : edit.onAutoClean =
    (edit.onField (.info .autoClean)).map fun cell => (cellText cell).map readFlag := by
  rw [onAutoClean, onInfo_eq, Option.map_map]
  rfl

theorem onStep_eq (position : UInt32) : edit.onStep position = edit.onField (.step position) := by
  cases edit with
  | putStep written step => by_cases same : written = position <;> simp [onStep, onField, same]
  | deleteStep deleted => by_cases same : deleted = position <;> simp [onStep, onField, same]
  | _ => rfl

theorem onStep_eq_onField (position : UInt32) : onStep position = onField (.step position) :=
  funext fun edit => edit.onStep_eq position

end Edit

/-! ## Reservations -/

/-- A cell reads as a reservation with the text of the given one. -/
def ReadsAlike (cell : Option Bytes) (held : Option Reservation) : Prop :=
  ∃ read, cellReservation cell = .ok read ∧
    read.map Reservation.text = held.map Reservation.text

theorem ReadsAlike.of_text (reservation : Reservation) :
    ReadsAlike (some (Bytes.ofText reservation.text)) (some reservation) := by
  obtain ⟨read, parsed⟩ := reservation.exists_parse_text
  refine ⟨some read, ?_, congrArg some (Reservation.text_of_parse_text parsed)⟩
  simp only [cellReservation, cellText_ofText, parsed]
  rfl

theorem ReadsAlike.edit {cell : Option Bytes} {held : Option Reservation}
    (alike : ReadsAlike cell held) (edit : Edit) :
    ReadsAlike ((edit.onField .reservation).getD cell) (edit.onReservation.getD held) := by
  cases edit with
  | reserve reservation => exact .of_text reservation
  | release reservation => exact ⟨none, rfl, rfl⟩
  | delete => exact ⟨none, rfl, rfl⟩
  | _ => exact alike

theorem Edit.onField_of_onReservation {edit : Edit} (untouched : edit.onReservation = none) :
    edit.onField .reservation = none := by
  cases edit with
  | reserve reservation => cases untouched
  | release reservation => cases untouched
  | delete => cases untouched
  | _ => rfl

/-! ## Records after edits -/

section Written

variable {id : Id} {edits : List Edit} {record : Record}

theorem get?_written_field (record : Record) (id : Id) (edits : List Edit) (field : Field) :
    ((Edit.mutation id edits).written (some record)).get? field.column =
      lastly (Edit.onField field) edits (record.get? field.column) := by
  rw [Mutation.get?_written]
  exact Edit.foldl_onCell_flatMap field (record.get? field.column) edits

/-- A field that reads off its cell alone. -/
theorem view_written {α : Type} (field : Field) {view : Option Bytes → α}
    {effect : Edit → Option α} (same : ∀ edit : Edit, effect edit = (edit.onField field).map view)
    (record : Record) (id : Id) (edits : List Edit) :
    view (((Edit.mutation id edits).written (some record)).get? field.column) =
      lastly effect edits (view (record.get? field.column)) := by
  rw [get?_written_field]
  exact lastly_map same edits (record.get? field.column)

theorem Canonical.written (canonical : Canonical record) :
    Canonical ((Edit.mutation id edits).written (some record)) := by
  intro column family stored
  rw [Mutation.get?_written] at stored
  rcases Write.foldl_onCell (edits.flatMap Edit.writes) column (record.get? column) with
    kept | none | ⟨value, member, _⟩
  · exact canonical column family (kept ▸ stored)
  · exact absurd none stored
  · obtain ⟨edit, _, member⟩ := List.mem_flatMap.mp member
    obtain ⟨field, rfl⟩ := edit.exists_field_of_put member
    rw [field.family_column] at family
    cases field with
    | step position => exact ⟨position, rfl⟩
    | info detail => exact absurd family (show infoFamily ≠ stepFamily by decide)
    | _ => exact absurd family (show factFamily ≠ stepFamily by decide)

theorem Snapshot.Describes.lists {snapshot : Snapshot} (describes : snapshot.Describes record)
    (canonical : Canonical record) : Lists record snapshot.steps := by
  obtain ⟨steps, lists⟩ := canonical.exists_lists
  have same : (.ok steps : Except Malformed _) = .ok snapshot.steps :=
    lists.readSteps.symm.trans describes.steps
  cases same
  exact lists

private theorem exists_reservation_written {before : Snapshot}
    (describes : before.Describes record) (id : Id) (edits : List Edit) :
    ∃ read, cellReservation
        (((Edit.mutation id edits).written (some record)).get? reservationColumn) = .ok read ∧
      read.map Reservation.text =
        (lastly Edit.onReservation edits before.reservation).map Reservation.text ∧
      ((∀ edit ∈ edits, edit.onReservation = none) → read = before.reservation) := by
  have left := get?_written_field record id edits .reservation
  change _ = lastly (Edit.onField .reservation) edits (record.get? reservationColumn) at left
  have start : ReadsAlike (record.get? reservationColumn) before.reservation :=
    ⟨_, describes.reservation, rfl⟩
  obtain ⟨read, reads, text⟩ := @lastly_related _ _ ReadsAlike _ _
    (fun edit _ _ alike => alike.edit edit) edits _ _ start
  refine ⟨read, (congrArg _ left).trans reads, text, fun untouched => ?_⟩
  have cell := fun edit member => Edit.onField_of_onReservation (untouched edit member)
  rw [lastly_of_untouched cell, describes.reservation] at reads
  exact (Except.ok.inj reads).symm

/-- A record that reads still reads after edits that leave its row alone, and as its snapshot
after the same edits. -/
theorem Snapshot.Describes.written_of_row {before : Snapshot}
    (describes : before.Describes record) (canonical : Canonical record)
    (row : ((Edit.mutation id edits).written (some record)).row = record.row) :
    ∃ after : Snapshot, after.Describes ((Edit.mutation id edits).written (some record)) ∧
      Edited edits before after := by
  let written := (Edit.mutation id edits).written (some record)
  obtain ⟨reservation, reserved, alike, kept⟩ := exists_reservation_written describes id edits
  obtain ⟨steps, lists⟩ := (canonical.written : Canonical written).exists_lists
  let after : Snapshot := {
    id := before.id
    status := (cellText (written.get? statusColumn)).map readStatus
    reservation
    createTime := (cellText (written.get? createTimeColumn)).bind (Text.word64? 10)
    name := cellText (written.get? Info.name.column)
    autoClean := (cellText (written.get? Info.autoClean.column)).map readFlag
    exception := cellText (written.get? Info.exception.column)
    returnValue := cellText (written.get? Info.returnValue.column)
    steps }
  have parsed : Id.parse written.row = .ok before.id := by
    rw [row]
    exact describes.id
  refine ⟨after, ⟨parsed, reserved, lists.readSteps, rfl, rfl, rfl, rfl, rfl, rfl⟩, ?_⟩
  exact {
    id := rfl
    status := by
      rw [describes.status]
      exact view_written .status Edit.onStatus_eq record id edits
    createTime := by
      rw [describes.createTime]
      exact view_written .createTime Edit.onCreateTime_eq record id edits
    name := by
      rw [describes.name]
      exact view_written (.info .name) (Edit.onInfo_eq · .name) record id edits
    autoClean := by
      rw [describes.autoClean]
      exact view_written (.info .autoClean) Edit.onAutoClean_eq record id edits
    exception := by
      rw [describes.exception]
      exact view_written (.info .exception) (Edit.onInfo_eq · .exception) record id edits
    returnValue := by
      rw [describes.returnValue]
      exact view_written (.info .returnValue) (Edit.onInfo_eq · .returnValue) record id edits
    reservation := alike
    reservationKept := kept
    steps := fun position => by
      rw [step?_eq (describes.lists canonical), step?_eq lists, Edit.onStep_eq_onField]
      exact get?_written_field record id edits (.step position)
    descending := lists.descending }

theorem Snapshot.Describes.written {before : Snapshot} (describes : before.Describes record)
    (canonical : Canonical record) (row : record.row = id.text) :
    ∃ after : Snapshot, after.Describes ((Edit.mutation id edits).written (some record)) ∧
      Edited edits before after := by
  refine describes.written_of_row canonical (Eq.trans ?_ row.symm)
  exact (Edit.mutation id edits).row_written fun stored found => by
    cases found
    exact row

/-- A snapshot of a record without cells has no value in any field. -/
theorem Snapshot.Edited.emptied {before after : Snapshot} (edited : Edited edits before after)
    (describes : after.Describes record) (canonical : Canonical record)
    (empty : record.isEmpty = true) : Emptied edits before := by
  have cells := Record.get?_of_isEmpty empty
  have lists := describes.lists canonical
  obtain ⟨_, reservation, _, status, createTime, name, autoClean, exception, returnValue⟩ :=
    describes
  rw [cells] at reservation status createTime name autoClean exception returnValue
  have text := edited.reservation
  rw [← Except.ok.inj reservation, Option.map_none] at text
  exact {
    status := edited.status.symm.trans status
    createTime := edited.createTime.symm.trans createTime
    name := edited.name.symm.trans name
    autoClean := edited.autoClean.symm.trans autoClean
    exception := edited.exception.symm.trans exception
    returnValue := edited.returnValue.symm.trans returnValue
    reservation := Option.map_eq_none_iff.mp text.symm
    steps := fun position => by
      rw [← edited.steps position, step?_eq lists, cells] }

end Written

/-! ## Accepted edits -/

namespace Edit

variable {store later : Memory} {id : Id} {edits : List Edit} {record : Record}

theorem lands_of_attempt (accepted : attempt id edits store = .ok .accepted later) :
    store.lands (mutation id edits) = true ∧ later = (store.submit (mutation id edits)).2 := by
  cases writes : (mutation id edits).hasWrites with
  | false =>
      unfold attempt Mutation.attempt at accepted
      rw [writes] at accepted
      cases accepted
  | true =>
      have sent : attempt id edits store = _ := Mutation.attempt_eq writes
      rw [sent] at accepted
      obtain ⟨outcome, same⟩ := EStateM.Result.ok.inj accepted
      exact ⟨Memory.lands_of_accepted outcome, same.symm⟩

/-- Reading what accepted edits leave of a record is editing what was read: in every field the
last edit counts that touches it, and a field that none touches stays. A record that is gone
had no value left in any field. -/
theorem view_of_accepted {before : Snapshot} (found : store.read id.text = some record)
    (row : record.row = id.text) (reads : Snapshot.ofRecord record = .ok before)
    (canonical : Canonical record) (accepted : attempt id edits store = .ok .accepted later) :
    (∀ remaining, later.read id.text = some remaining →
      ∃ after, Snapshot.ofRecord remaining = .ok after ∧ Snapshot.Edited edits before after) ∧
    (later.read id.text = none → Snapshot.Emptied edits before) := by
  obtain ⟨lands, rfl⟩ := lands_of_attempt accepted
  have written : (store.submit (mutation id edits)).2.read id.text =
      (mutation id edits).applyTo (some record) := by
    rw [read_submit, if_pos ⟨rfl, lands⟩, found]
  obtain ⟨after, describes, edited⟩ :=
    (Snapshot.describes_iff.mpr reads).written canonical row
  have applied : (mutation id edits).applyTo (some record) =
      if ((mutation id edits).written (some record)).isEmpty then none
      else some ((mutation id edits).written (some record)) := rfl
  rw [written, applied]
  cases empty : ((mutation id edits).written (some record)).isEmpty with
  | true =>
      refine ⟨fun remaining kept => ?_, fun _ => ?_⟩
      · cases kept
      · exact edited.emptied describes canonical.written empty
  | false =>
      refine ⟨fun remaining kept => ?_, fun gone => ?_⟩
      · cases kept
        exact ⟨after, Snapshot.describes_iff.mp describes, edited⟩
      · cases gone

end Edit

theorem Stacks.canonical {limit : UInt32} {piles : Id → List Bytes} {store : Memory}
    (holds : Stacks limit piles store) {id : Id} {record : Record}
    (found : store.read id.text = some record) : Canonical record := by
  intro column family stored
  obtain ⟨step, value⟩ := Option.ne_none_iff_exists'.mp stored
  have cell : store.cell? id.text column = some step := by
    rw [Memory.cell?, found, Option.bind_some, value]
  exact holds.exists_stepColumn family cell

/-- A worker records two steps, takes the lower one back and gives the transaction up. -/
def workDone : List Edit :=
  [.requireReserved holder.reservation, .putStep 1 [7], .putStep 3 [8], .deleteStep 1,
    .putStatus .submitted, .release holder.reservation]

theorem Edit.view_of_accepted_workDone :
    ∃ later remaining after,
      attempt holder.transaction workDone (Clients.start.run 100 (reserved "worker")).store =
        .ok .accepted later ∧
      later.read holder.transaction.text = some remaining ∧
      Snapshot.ofRecord remaining = .ok after ∧
      after.status = some .submitted ∧ after.reservation = none ∧
      after.step? 1 = none ∧ after.step? 3 = some [8] := by
  let store := (Clients.start.run 100 (reserved "worker")).store
  let sent := store.submit (mutation holder.transaction workDone)
  have stored : (store.read holder.transaction.text).isSome = true ∧ sent.1 = .accepted ∧
      (sent.2.read holder.transaction.text).isSome = true := by
    decide +kernel
  obtain ⟨stored, told, kept⟩ := stored
  obtain ⟨record, found⟩ := Option.isSome_iff_exists.mp stored
  obtain ⟨remaining, left⟩ := Option.isSome_iff_exists.mp kept
  have holds : Stacks 100 _ store := (Stacks.start 100).run (reserved "worker")
  obtain ⟨before, reads, _⟩ := (holds.stacked found).ofRecord (holds.fits holder.transaction)
  have accepted : attempt holder.transaction workDone store = .ok .accepted sent.2 :=
    told ▸ Mutation.attempt_eq rfl
  obtain ⟨after, shows, edited⟩ := (view_of_accepted found (holds.stacked found).row reads
    (holds.canonical found) accepted).1 remaining left
  refine ⟨sent.2, remaining, after, accepted, left, shows, edited.status, ?_, edited.steps 1,
    edited.steps 3⟩
  have text := edited.reservation
  have released : lastly onReservation workDone before.reservation = none := rfl
  rw [released] at text
  exact Option.map_eq_none_iff.mp text

end GuardedRows.Tx
