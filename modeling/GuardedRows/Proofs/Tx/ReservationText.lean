import GuardedRows.Proofs.Uuid
import GuardedRows.Tx.Reservation

/-!
# Texts of reservations

A text reads as a reservation if a lock and a UUID stand before and after its last colon, and
as a lock if a place and a number stand around its last dollar sign, with the node behind the
last slash of the place. Every text of a reservation reads, though a path or a node with
separators in it may be cut at another place, and what was read is read back ever after. The
UUID at the end tells reservations of different draws apart.
-/

set_option autoImplicit false

namespace GuardedRows

theorem Text.isSome_hexValue?_of_mem {base read number : Nat} {digits : List Char} {digit : Char}
    (valued : digitsValue? base read digits = some number) (member : digit ∈ digits) :
    (hexValue? digit).isSome = true := by
  induction digits generalizing read with
  | nil => cases member
  | cons head rest ih =>
      simp only [digitsValue?, Option.bind_eq_bind, Option.bind_eq_some_iff] at valued
      obtain ⟨value, headValued, restValued⟩ := valued
      rcases List.mem_cons.mp member with rfl | member
      · rw [headValued]
        rfl
      · split at restValued
        · exact ih restValued member
        · cases restValued

/-- A numeral is made of digits, but for a plus sign. -/
theorem Text.eq_plus_or_isSome_of_mem {base bound number : Nat} {text : List Char} {char : Char}
    (valued : natural? base bound text = some number) (member : char ∈ text) :
    char = '+' ∨ (hexValue? char).isSome = true := by
  unfold natural? at valued
  split at valued
  · cases valued
  · obtain ⟨read, _⟩ := Option.filter_eq_some_iff.mp valued
    have digit : char ∈ dropPlus text → (hexValue? char).isSome = true :=
      isSome_hexValue?_of_mem read
    unfold dropPlus at digit
    split at digit
    · exact (List.mem_cons.mp member).imp_right digit
    · exact .inr (digit member)

theorem Uuid.colon_not_mem_written (uuid : Uuid) : ':' ∉ uuid.written := by
  intro member
  rcases mem_hyphenate member with hyphen | member
  · exact absurd hyphen (by decide)
  · have digit := Text.isSome_hexValue?_of_mem (Text.digitsValue?_hex 0 uuid.bytes) member
    exact absurd digit (by decide)

namespace Tx

namespace LockId

theorem parse_eq_ok_iff {text : String} {lock : LockId} :
    LockId.parse text = .ok lock ↔ '/' ∉ lock.node.toList ∧
      ∃ session, Text.word64? 16 session = some lock.session ∧
        text = lock.path ++ "/" ++ lock.node ++ "$" ++ session := by
  constructor
  · intro parsed
    unfold parse at parsed
    split at parsed
    · cases parsed
    · next place session cut =>
        split at parsed
        · cases parsed
        · next path node within =>
            split at parsed
            · cases parsed
            · next number valued =>
                cases parsed
                obtain ⟨whole, _⟩ := Text.cutLast_eq_some_iff.mp cut
                obtain ⟨rfl, last⟩ := Text.cutLast_eq_some_iff.mp within
                refine ⟨by simpa using last, String.ofList session, valued,
                  String.toList_injective ?_⟩
                simp [whole]
  · intro shape
    obtain ⟨clean, session, valued, rfl⟩ := shape
    obtain ⟨number, natural, _⟩ := Option.map_eq_some_iff.mp valued
    have apart : '$' ∉ session.toList := fun member =>
      absurd (Text.eq_plus_or_isSome_of_mem natural member) (by decide)
    have cut : Text.cutLast '$'
        (lock.path ++ "/" ++ lock.node ++ "$" ++ session).toList =
        some (lock.path.toList ++ '/' :: lock.node.toList, session.toList) :=
      Text.cutLast_eq_some_iff.mpr ⟨by simp, apart⟩
    have within : Text.cutLast '/' (lock.path.toList ++ '/' :: lock.node.toList) =
        some (lock.path.toList, lock.node.toList) :=
      Text.cutLast_eq_some_iff.mpr ⟨rfl, clean⟩
    unfold parse
    simp only [cut, within, String.ofList_toList, valued]

/-- Where the text of a lock id is cut: after the last slash before the session, which need
not be the slash between its path and its node. -/
structure Cut (lock : LockId) (path node : List Char) : Prop where
  place : lock.path.toList ++ '/' :: lock.node.toList = path ++ '/' :: node
  last : '/' ∉ node

theorem exists_cut (lock : LockId) : ∃ path node, lock.Cut path node ∧
    LockId.parse lock.text =
      .ok ⟨String.ofList path, String.ofList node, lock.session⟩ := by
  cases parts : Text.cutLast '/' (lock.path.toList ++ '/' :: lock.node.toList) with
  | none => exact absurd (Text.cutLast_eq_none_iff.mp parts) (by simp)
  | some pair =>
      obtain ⟨path, node⟩ := pair
      obtain ⟨place, last⟩ := Text.cutLast_eq_some_iff.mp parts
      refine ⟨path, node, ⟨place, last⟩, parse_eq_ok_iff.mpr ⟨by simpa using last, ?_⟩⟩
      refine ⟨Text.hexadecimal lock.session.toNat, Text.word64?_hexadecimal _,
        String.toList_injective ?_⟩
      have whole :=
        congrArg (· ++ '$' :: (Text.hexadecimal lock.session.toNat).toList) place
      simpa [text] using whole

theorem exists_parse_text (lock : LockId) : ∃ read, LockId.parse lock.text = .ok read := by
  obtain ⟨path, node, _, read⟩ := lock.exists_cut
  exact ⟨_, read⟩

/-- What the text of a lock id reads as has the same text. -/
theorem text_of_parse_text {lock read : LockId} (parsed : LockId.parse lock.text = .ok read) :
    read.text = lock.text := by
  obtain ⟨path, node, cut, reads⟩ := lock.exists_cut
  obtain rfl := Except.ok.inj (reads.symm.trans parsed)
  refine String.toList_injective ?_
  have place := congrArg (· ++ '$' :: (Text.hexadecimal lock.session.toNat).toList) cut.place
  simpa [text] using place.symm

/-- A lock id is read back exactly if there is no slash in its node. -/
theorem parse_text_iff {lock : LockId} :
    LockId.parse lock.text = .ok lock ↔ '/' ∉ lock.node.toList := by
  constructor
  · intro same
    exact (parse_eq_ok_iff.mp same).1
  · intro clean
    exact parse_eq_ok_iff.mpr
      ⟨clean, Text.hexadecimal lock.session.toNat, Text.word64?_hexadecimal _, rfl⟩

end LockId

namespace Reservation

theorem toList_text (reservation : Reservation) :
    reservation.text.toList =
      reservation.lock.text.toList ++ ':' :: reservation.uuid.written := by
  simp [text, Uuid.text]

theorem uuid_eq_of_text_eq {left right : Reservation} (same : left.text = right.text) :
    left.uuid = right.uuid := by
  have lists := congrArg String.toList same
  rw [toList_text, toList_text] at lists
  have ends := (List.append_inj' lists (by simp)).2
  exact Uuid.written_injective (List.cons.inj ends).2

theorem parse_eq_ok_iff {text : String} {reservation : Reservation} :
    Reservation.parse text = .ok reservation ↔ ∃ lock uuid : String,
      LockId.parse lock = .ok reservation.lock ∧ Uuid.parse? uuid = some reservation.uuid ∧
        ':' ∉ uuid.toList ∧ text = lock ++ ":" ++ uuid := by
  constructor
  · intro parsed
    unfold parse at parsed
    split at parsed
    · cases parsed
    · next lock uuid cut =>
        split at parsed
        · cases parsed
        · next drawn read =>
            cases locked : LockId.parse (String.ofList lock) with
            | error malformed =>
                rw [locked] at parsed
                cases parsed
            | ok held =>
                rw [locked] at parsed
                cases parsed
                obtain ⟨whole, apart⟩ := Text.cutLast_eq_some_iff.mp cut
                refine ⟨String.ofList lock, String.ofList uuid, locked, ?_, by simpa using apart,
                  String.toList_injective ?_⟩
                · rw [Uuid.parse?, String.toList_ofList, read]
                · simp [whole]
  · intro shape
    obtain ⟨lock, uuid, locked, read, apart, rfl⟩ := shape
    have cut : Text.cutLast ':' (lock ++ ":" ++ uuid).toList =
        some (lock.toList, uuid.toList) :=
      Text.cutLast_eq_some_iff.mpr ⟨by simp, apart⟩
    rw [Uuid.parse?] at read
    unfold parse
    simp only [cut, read, String.ofList_toList, locked]
    rfl

/-- A reservation reads as its lock does, with its UUID. -/
theorem parse_text_of_lock {reservation : Reservation} {lock : LockId}
    (read : LockId.parse reservation.lock.text = .ok lock) :
    Reservation.parse reservation.text = .ok ⟨lock, reservation.uuid⟩ := by
  refine parse_eq_ok_iff.mpr ⟨reservation.lock.text, reservation.uuid.text, read,
    Uuid.parse?_text _, ?_, rfl⟩
  rw [Uuid.text, String.toList_ofList]
  exact reservation.uuid.colon_not_mem_written

theorem exists_parse_text (reservation : Reservation) :
    ∃ read, Reservation.parse reservation.text = .ok read := by
  obtain ⟨lock, read⟩ := reservation.lock.exists_parse_text
  exact ⟨_, parse_text_of_lock read⟩

theorem text_of_parse_text {reservation read : Reservation}
    (parsed : Reservation.parse reservation.text = .ok read) : read.text = reservation.text := by
  obtain ⟨lock, reads⟩ := reservation.lock.exists_parse_text
  obtain rfl := Except.ok.inj ((parse_text_of_lock reads).symm.trans parsed)
  unfold text
  rw [LockId.text_of_parse_text reads]

/-- A reservation is read back exactly if there is no slash in the node of its lock. -/
theorem parse_text_iff {reservation : Reservation} :
    Reservation.parse reservation.text = .ok reservation ↔
      '/' ∉ reservation.lock.node.toList := by
  obtain ⟨lock, reads⟩ := reservation.lock.exists_parse_text
  rw [parse_text_of_lock reads, ← LockId.parse_text_iff, reads]
  constructor
  · intro same
    rw [← congrArg Reservation.lock (Except.ok.inj same)]
  · intro same
    rw [Except.ok.inj same]

/-- The text of every reservation reads, as a reservation with the same text, and as the
reservation itself exactly if there is no slash in the node of its lock. Whatever reads from
any text is read back from its own. -/
theorem texts_read_back :
    (∀ reservation : Reservation, ∃ read, Reservation.parse reservation.text = .ok read ∧
      read.text = reservation.text ∧
      (read = reservation ↔ '/' ∉ reservation.lock.node.toList)) ∧
    ∀ text read, Reservation.parse text = .ok read → Reservation.parse read.text = .ok read := by
  constructor
  · intro reservation
    obtain ⟨read, parsed⟩ := reservation.exists_parse_text
    refine ⟨read, parsed, text_of_parse_text parsed, ?_⟩
    rw [← parse_text_iff, parsed, Except.ok.injEq]
  · intro text read parsed
    obtain ⟨lock, _, locked, _⟩ := parse_eq_ok_iff.mp parsed
    exact parse_text_iff.mpr (LockId.parse_eq_ok_iff.mp locked).1

/-- A session with a sign and leading zeros, and a UUID in braces and capitals. -/
theorem texts_read_back_braced :
    let read : Reservation := ⟨⟨"p/q$r", "n", 10⟩, ⟨List.replicate 15 0 ++ [0xaf], rfl⟩⟩
    Reservation.parse "p/q$r/n$+0A:{00000000-0000-0000-0000-0000000000AF}" = .ok read ∧
      Reservation.parse read.text = .ok read := by
  intro read
  have parsed :
      Reservation.parse "p/q$r/n$+0A:{00000000-0000-0000-0000-0000000000AF}" = .ok read := by
    refine parse_eq_ok_iff.mpr ⟨"p/q$r/n$+0A", "{00000000-0000-0000-0000-0000000000AF}",
      LockId.parse_eq_ok_iff.mpr ⟨by decide, "+0A", ?_, ?_⟩, ?_, ?_, ?_⟩ <;> decide +kernel
  exact ⟨parsed, texts_read_back.2 _ read parsed⟩

end Reservation

end Tx

end GuardedRows
