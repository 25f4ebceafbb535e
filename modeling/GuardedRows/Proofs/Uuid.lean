import GuardedRows.Proofs.Bytes.Hex
import GuardedRows.Uuid

/-!
# Texts of UUIDs

A text reads as a UUID exactly if it is one of the four spellings of the UUID's digits, in
letters of either case. A lawful format reads every spelling with its prefix in small letters,
and reads capitals there as it likes. UUIDs are ordered as what is written for them.
-/

set_option autoImplicit false

namespace GuardedRows.Uuid

/-! ## Spellings -/

/-- The prefix of a UUID's name, in letters of either case. -/
def AnyCase (lead : List Char) : Prop := lead.map Char.toLower = "urn:uuid:".toList

/-- The prefix of a UUID's name, in small letters. -/
def SmallLetters (lead : List Char) : Prop := lead = "urn:uuid:".toList

/-- The spellings of some digits: bare, in groups, in groups within braces, and in groups
behind an admitted prefix. -/
inductive Spelling (admitted : List Char → Prop) (digits : List Char) : List Char → Prop where
  | bare : Spelling admitted digits digits
  | grouped : Spelling admitted digits (hyphenate groups digits)
  | braced : Spelling admitted digits ('{' :: hyphenate groups digits ++ ['}'])
  | urn {lead : List Char} : admitted lead →
      Spelling admitted digits (lead ++ hyphenate groups digits)

/-- A text spells a UUID by its digits, with letters of either case. -/
def Spells (admitted : List Char → Prop) (text : List Char) (uuid : Uuid) : Prop :=
  ∃ digits, digits.map Char.toLower = uuid.bytes.hex ∧ Spelling admitted digits text

theorem SmallLetters.anyCase {lead : List Char} (small : SmallLetters lead) : AnyCase lead := by
  rw [AnyCase, small]
  decide

theorem Spells.anyCase {text : List Char} {uuid : Uuid} (spells : Spells SmallLetters text uuid) :
    Spells AnyCase text uuid := by
  obtain ⟨digits, lower, spelling⟩ := spells
  refine ⟨digits, lower, ?_⟩
  cases spelling with
  | bare => exact .bare
  | grouped => exact .grouped
  | braced => exact .braced
  | urn small => exact .urn small.anyCase

private theorem unhyphenate?_eq_some_iff {widths : List Nat} {text digits : List Char} :
    unhyphenate? widths text = some digits ↔
      digits.length = countDigits widths ∧ text = hyphenate widths digits := by
  constructor
  · intro read
    fun_induction unhyphenate? widths text generalizing digits with
    | case1 => cases read; exact ⟨rfl, rfl⟩
    | case2 => cases read
    | case3 => cases read; exact ⟨rfl, rfl⟩
    | case4 => cases read
    | case5 width more text notLast rest cut ih =>
        obtain ⟨others, readRest, rfl⟩ := Option.map_eq_some_iff.mp read
        obtain ⟨counted, same⟩ := ih readRest
        have uncut : width < text.length := by
          have behind : (text.drop width).length = rest.length + 1 := by rw [cut]; rfl
          rw [List.length_drop] at behind
          omega
        have taken : (text.take width).length = width := by
          rw [List.length_take]
          omega
        constructor
        · rw [List.length_append, taken, counted]
          rfl
        · rw [hyphenate, List.take_left' taken, List.drop_left' taken, ← same, ← cut,
            List.take_append_drop]
          exact notLast
    | case6 => cases read
  · intro written
    obtain ⟨fits, rfl⟩ := written
    exact unhyphenate?_hyphenate widths digits fits

private theorem spelling_of_digits? {text digits : List Char} (read : digits? text = some digits) :
    digits.length = 32 ∧ Spelling AnyCase digits text := by
  unfold digits? at read
  split at read
  · next length =>
      cases read
      exact ⟨length, .bare⟩
  · obtain ⟨full, rfl⟩ := unhyphenate?_eq_some_iff.mp read
    exact ⟨full, .grouped⟩
  · unfold braced? at read
    split at read
    · obtain ⟨inner, cut, readInner⟩ := Option.bind_eq_some_iff.mp read
      obtain rfl := Text.dropEnd?_eq_some_iff.mp cut
      obtain ⟨full, rfl⟩ := unhyphenate?_eq_some_iff.mp readInner
      exact ⟨full, .braced⟩
    · cases read
  · unfold urn? at read
    split at read
    · next lead =>
        obtain ⟨full, same⟩ := unhyphenate?_eq_some_iff.mp read
        rw [← List.take_append_drop 9 text, same]
        exact ⟨full, .urn lead⟩
    · cases read
  · cases read

private theorem length_grouped {digits : List Char} (full : digits.length = 32) :
    (hyphenate groups digits).length = 36 := by
  simp only [groups, length_hyphenate, full]
  rfl

private theorem length_braced {digits : List Char} (full : digits.length = 32) :
    ('{' :: hyphenate groups digits ++ ['}']).length = 38 := by
  simp only [List.cons_append, List.length_cons, List.length_append, length_grouped full,
    List.length_nil]

private theorem AnyCase.length_eq {lead : List Char} (prefixed : AnyCase lead) :
    lead.length = 9 := by
  rw [← List.length_map Char.toLower, prefixed]
  rfl

private theorem length_urn {lead digits : List Char} (full : digits.length = 32)
    (prefixed : AnyCase lead) : (lead ++ hyphenate groups digits).length = 45 := by
  rw [List.length_append, prefixed.length_eq, length_grouped full]

/-- No spelling is taken for another, as each has a length of its own. -/
private theorem digits?_of_spelling {text digits : List Char} (full : digits.length = 32)
    (spelling : Spelling AnyCase digits text) : digits? text = some digits := by
  have inner : unhyphenate? groups (hyphenate groups digits) = some digits :=
    unhyphenate?_hyphenate groups digits full
  cases spelling with
  | bare =>
      rw [digits?, full]
      rfl
  | grouped =>
      rw [digits?, length_grouped full]
      exact inner
  | braced =>
      rw [digits?, length_braced full]
      simp only [List.cons_append, braced?, Text.dropEnd?_eq_some_iff.mpr rfl,
        Option.bind_some, inner]
  | @urn lead prefixed =>
      rw [digits?, length_urn full prefixed]
      simp only [urn?, List.take_left' prefixed.length_eq, List.drop_left' prefixed.length_eq]
      exact (if_pos prefixed).trans inner

private theorem length_of_lower {digits : List Char} {uuid : Uuid}
    (lower : digits.map Char.toLower = uuid.bytes.hex) : digits.length = 32 := by
  rw [← List.length_map Char.toLower, lower, Bytes.length_hex, uuid.length_bytes]

/-- A text reads as a UUID exactly if it spells it. -/
theorem read?_eq_some_iff {text : List Char} {uuid : Uuid} :
    read? text = some uuid ↔ Spells AnyCase text uuid := by
  constructor
  · intro read
    obtain ⟨digits, readDigits, readBytes⟩ := Option.bind_eq_some_iff.mp read
    obtain ⟨bytes, lower, made⟩ := Option.bind_eq_some_iff.mp readBytes
    unfold ofBytes? at made
    split at made
    · cases made
      exact ⟨digits, Bytes.ofHex?_eq_some_iff.mp lower, (spelling_of_digits? readDigits).2⟩
    · cases made
  · intro spelled
    obtain ⟨digits, lower, spelling⟩ := spelled
    have full := length_of_lower lower
    simp only [read?, digits?_of_spelling full spelling, Bytes.ofHex?_eq_some_iff.mpr lower,
      Option.bind_eq_bind, Option.bind_some, ofBytes?_bytes]

/-! ## Formats -/

namespace Format

/-- What is known of formats. They read the four spellings with digits in letters of either
case. What else they read is a spelling but for capitals in the prefix, on which formats
differ. They write groups of small letters. -/
structure Lawful (format : Format) : Prop where
  reads : ∀ {text : String} {uuid : Uuid}, Spells SmallLetters text.toList uuid →
    format.parse? text = some uuid
  spelled : ∀ {text : String} {uuid : Uuid}, format.parse? text = some uuid →
    Spells AnyCase text.toList uuid
  writes : ∀ uuid : Uuid, format.text uuid = String.ofList (hyphenate groups uuid.bytes.hex)

theorem lawful_format : Uuid.format.Lawful where
  reads spells := read?_eq_some_iff.mpr spells.anyCase
  spelled read := read?_eq_some_iff.mp read
  writes _ := rfl

theorem lawful_literal : literal.Lawful where
  reads := by
    intro text uuid spells
    have read : Uuid.parse? text = some uuid := read?_eq_some_iff.mpr spells.anyCase
    refine (if_neg ?_).trans read
    rintro ⟨long, other⟩
    obtain ⟨digits, lower, spelling⟩ := spells
    have full := length_of_lower lower
    rw [← String.length_toList] at long
    generalize text.toList = letters at spelling long other
    cases spelling with
    | bare => omega
    | grouped =>
        rw [length_grouped full] at long
        cases long
    | braced =>
        rw [length_braced full] at long
        cases long
    | urn small =>
        rw [List.take_left' small.anyCase.length_eq, small] at other
        exact other rfl
  spelled := by
    intro text uuid read
    unfold literal at read
    dsimp only at read
    split at read
    · cases read
    · exact read?_eq_some_iff.mp read
  writes _ := rfl

namespace Lawful

variable {format : Format} (lawful : format.Lawful)
include lawful

theorem parse?_text (uuid : Uuid) : format.parse? (format.text uuid) = some uuid := by
  have small : uuid.bytes.hex.map Char.toLower = uuid.bytes.hex :=
    Bytes.ofHex?_eq_some_iff.mp (Bytes.ofHex?_hex uuid.bytes)
  refine lawful.reads ⟨uuid.bytes.hex, small, ?_⟩
  rw [lawful.writes, String.toList_ofList]
  exact .grouped

end Lawful

end Format

/-! ## What is written -/

theorem written_injective {left right : Uuid} (same : left.written = right.written) :
    left = right := by
  have read := congrArg read? same
  simpa using read

theorem mem_hyphenate {widths : List Nat} {digits : List Char} {char : Char}
    (member : char ∈ hyphenate widths digits) : char = '-' ∨ char ∈ digits := by
  fun_induction hyphenate widths digits with
  | case1 => cases member
  | case2 => exact .inr member
  | case3 width more digits _ ih =>
      rcases List.mem_append.mp member with taken | member
      · exact .inr (List.mem_of_mem_take taken)
      · rcases List.mem_cons.mp member with hyphen | member
        · exact .inl hyphen
        · exact (ih member).imp_right List.mem_of_mem_drop

/-! ## Order -/

private theorem lt_of_compare {left right : Bytes} (below : compare left right = .lt) :
    left < right := by
  induction left generalizing right with
  | nil =>
      cases right with
      | nil => cases below
      | cons head rest => exact List.nil_lt_cons head rest
  | cons byte tail ih =>
      cases right with
      | nil => cases below
      | cons head rest =>
          rw [List.compare_cons_cons] at below
          rcases Ordering.then_eq_lt.mp below with smaller | ⟨same, smaller⟩
          · exact List.cons_lt_cons_iff.mpr (.inl (Std.compare_eq_lt.mp smaller))
          · exact List.cons_lt_cons_iff.mpr
              (.inr ⟨Std.LawfulEqOrd.eq_of_compare same, ih smaller⟩)

/-- Digits in groups are ordered as the digits are: the hyphens stand at the same places, so
the first group that differs decides. -/
private theorem hyphenate_lt_hyphenate {widths : List Nat} {left right : List Char}
    (below : left < right) (fits : left.length = countDigits widths)
    (fits' : right.length = countDigits widths) :
    hyphenate widths left < hyphenate widths right := by
  induction widths generalizing left right with
  | nil =>
      rw [List.eq_nil_of_length_eq_zero fits'] at below
      exact absurd below (List.not_lt_nil left)
  | cons width more ih =>
      cases more with
      | nil => exact below
      | cons next others =>
          have fits : left.length = width + countDigits (next :: others) := fits
          have fits' : right.length = width + countDigits (next :: others) := fits'
          have grouped : ∀ digits, hyphenate (width :: next :: others) digits =
              digits.take width ++ '-' :: hyphenate (next :: others) (digits.drop width) :=
            fun _ => rfl
          rw [grouped left, grouped right]
          rcases Text.take_lt_or_drop_lt width below (fits.trans fits'.symm) with
            smaller | ⟨same, smaller⟩
          · refine Text.append_lt_append_of_lt smaller ?_ _ _
            rw [List.length_take, List.length_take, fits, fits']
          · rw [same]
            have rest := ih smaller (by rw [List.length_drop]; omega)
              (by rw [List.length_drop]; omega)
            exact List.append_left_lt (List.cons_lt_cons_iff.mpr (.inr ⟨rfl, rest⟩))

theorem written_lt_written {left right : Uuid} (below : compare left right = .lt) :
    left.written < right.written := by
  have full : ∀ uuid : Uuid, uuid.bytes.hex.length = countDigits groups := by
    intro uuid
    rw [Bytes.length_hex, uuid.length_bytes]
    rfl
  have digits := Bytes.hex_lt_hex (lt_of_compare below)
    (left.length_bytes.trans right.length_bytes.symm)
  exact hyphenate_lt_hyphenate digits (full left) (full right)

end GuardedRows.Uuid
