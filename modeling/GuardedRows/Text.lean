import GuardedRows.Bytes

/-!
# Texts

Texts are compared code point by code point, which is also the order of their UTF-8 bytes.
They are cut at separators, numbers are written in them and read from them, and a text that
does not read is refused with its cause.
-/

set_option autoImplicit false

namespace GuardedRows

/-! ## Malformed texts

Why a text, or a row made of texts, does not read as what it should be. Each cause keeps
the text that was refused.
-/

inductive Malformed where
  | instanceName (text : String)
  | uuid (text : String)
  | transactionId (text : String)
  | lockId (text : String)
  | reservation (text : String)
  | status (text : String)
  | stepQualifier (qualifier : String)
  | operationId (text : String)
  | operationKind (text : String)
  | metadataRow (row : String)
  | noPreviousRow (row : String)
  | previousRowText
  | previousRowTag
  | availability (text : String)
  deriving DecidableEq

/-! ## The order of texts

The three-way comparison agrees with the order relations.
-/

namespace Text

theorem compare_eq_lt_iff {left right : String} : compare left right = .lt ↔ left < right := by
  change compareOfLessAndEq left right = .lt ↔ left < right
  unfold compareOfLessAndEq
  split
  · simp [*]
  · split <;> simp_all

theorem compare_eq_gt_iff {left right : String} : compare left right = .gt ↔ right < left :=
  Std.OrientedCmp.gt_iff_lt.trans compare_eq_lt_iff

/-! ## Cutting a text at a separator

A cut drops one occurrence of the separator and keeps what stands before and after it.
-/

def cutFirst (separator : Char) : List Char → Option (List Char × List Char)
  | [] => none
  | head :: rest =>
      if head = separator then some ([], rest)
      else (cutFirst separator rest).map fun (before, after) => (head :: before, after)

def cutLast (separator : Char) : List Char → Option (List Char × List Char)
  | [] => none
  | head :: rest =>
      match cutLast separator rest with
      | some (before, after) => some (head :: before, after)
      | none => if head = separator then some ([], rest) else none

def dropEnd? (ending : Char) : List Char → Option (List Char)
  | [] => none
  | [last] => if last = ending then some [] else none
  | head :: next :: rest => (dropEnd? ending (next :: rest)).map (head :: ·)

theorem cutFirst_eq_some_iff {separator : Char} {text before after : List Char} :
    cutFirst separator text = some (before, after) ↔
      text = before ++ separator :: after ∧ separator ∉ before := by
  induction text generalizing before with
  | nil => simp [cutFirst]
  | cons head rest ih =>
      by_cases found : head = separator
      · subst found
        cases before with
        | nil => simp [cutFirst, eq_comm]
        | cons first tail =>
            simp only [cutFirst, ↓reduceIte, Option.some.injEq, Prod.mk.injEq, reduceCtorEq,
              List.cons_append, List.cons.injEq, List.mem_cons, not_or, false_and, false_iff]
            grind
      · cases before with
        | nil => simp [cutFirst, found]
        | cons first tail =>
            simp only [cutFirst, found, ↓reduceIte, Option.map_eq_some_iff, Prod.mk.injEq,
              List.cons.injEq, Prod.exists, List.cons_append, List.mem_cons, not_or]
            constructor
            · rintro ⟨before', after', cut, ⟨rfl, rfl⟩, rfl⟩
              have := ih.mp cut
              grind
            · rintro ⟨⟨rfl, same⟩, _, absent⟩
              exact ⟨tail, after, ih.mpr ⟨same, absent⟩, ⟨rfl, rfl⟩, rfl⟩

theorem cutFirst_eq_none_iff {separator : Char} {text : List Char} :
    cutFirst separator text = none ↔ separator ∉ text := by
  induction text with
  | nil => simp [cutFirst]
  | cons head rest ih =>
      by_cases found : head = separator
      · simp [cutFirst, found]
      · simp [cutFirst, found, ih, Ne.symm found]

theorem cutLast_eq_none_iff {separator : Char} {text : List Char} :
    cutLast separator text = none ↔ separator ∉ text := by
  induction text with
  | nil => simp [cutLast]
  | cons head rest ih =>
      cases cut : cutLast separator rest with
      | none =>
          have absent := ih.mp cut
          by_cases found : head = separator
          · simp [cutLast, cut, found]
          · simp [cutLast, cut, found, absent, Ne.symm found]
      | some parts =>
          have present : separator ∈ rest := by
            refine Classical.byContradiction fun absent => ?_
            simp [ih.mpr absent] at cut
          simp [cutLast, cut, present]

theorem cutLast_eq_some_iff {separator : Char} {text before after : List Char} :
    cutLast separator text = some (before, after) ↔
      text = before ++ separator :: after ∧ separator ∉ after := by
  induction text generalizing before with
  | nil => simp [cutLast]
  | cons head rest ih =>
      cases cut : cutLast separator rest with
      | none =>
          have absent := cutLast_eq_none_iff.mp cut
          by_cases found : head = separator
          · subst found
            cases before with
            | nil => simp [cutLast, cut]; grind
            | cons first tail => simp [cutLast, cut]; grind
          · cases before with
            | nil => simp [cutLast, cut, found]
            | cons first tail => simp [cutLast, cut, found]; grind
      | some parts =>
          have present : separator ∈ rest := by
            refine Classical.byContradiction fun absent => ?_
            simp [cutLast_eq_none_iff.mpr absent] at cut
          cases before with
          | nil => simp [cutLast, cut]; grind
          | cons first tail =>
              have same := @ih tail
              simp only [cut, Option.some.injEq] at same
              simp [cutLast, cut]
              grind

theorem dropEnd?_eq_some_iff {ending : Char} {text rest : List Char} :
    dropEnd? ending text = some rest ↔ text = rest ++ [ending] := by
  fun_induction dropEnd? ending text generalizing rest with
  | case1 => simp
  | case2 => cases rest <;> simp
  | case3 last different => cases rest <;> simp [different]
  | case4 head next others ih =>
      simp only [Option.map_eq_some_iff, ih]
      cases rest with
      | nil => simp
      | cons first tail =>
          constructor
          · rintro ⟨tail, shape, made⟩
            cases made
            simpa using shape
          · intro shape
            obtain ⟨rfl, same⟩ := List.cons.inj shape
            exact ⟨tail, same, rfl⟩

/-! ## Numerals

Whole numbers in a base of at most sixteen. A numeral is read with one leading plus sign
allowed, any number of leading zeros and letters of either case; a numeral without digits
and a number that does not fit its word are refused.
-/

/-- The number with these digits, continuing from the digits read so far. -/
def digitsValue? (base : Nat) : Nat → List Char → Option Nat
  | read, [] => some read
  | read, digit :: rest => do
      let value ← hexValue? digit
      if value < base then digitsValue? base (base * read + value) rest else none

def dropPlus : List Char → List Char
  | '+' :: rest => rest
  | text => text

def natural? (base bound : Nat) (text : List Char) : Option Nat :=
  match dropPlus text with
  | [] => none
  | digits => (digitsValue? base 0 digits).filter (· < bound)

def word32? (base : Nat) (text : String) : Option UInt32 :=
  (natural? base UInt32.size text.toList).map UInt32.ofNat

def word64? (base : Nat) (text : String) : Option UInt64 :=
  (natural? base UInt64.size text.toList).map UInt64.ofNat

def decimal (number : Nat) : String := String.ofList (Nat.toDigits 10 number)

def hexadecimal (number : Nat) : String := String.ofList (Nat.toDigits 16 number)

/-! ## Numerals that were written -/

theorem digitsValue?_append (base read : Nat) (left right : List Char) :
    digitsValue? base read (left ++ right) =
      (digitsValue? base read left).bind (digitsValue? base · right) := by
  induction left generalizing read with
  | nil => rfl
  | cons digit rest ih =>
      simp only [List.cons_append, digitsValue?, Option.bind_eq_bind]
      cases hexValue? digit with
      | none => rfl
      | some value =>
          simp only [Option.bind_some]
          split
          · exact ih _
          · rfl

theorem digitsValue?_toDigits {base : Nat} (several : 1 < base) (few : base ≤ 16)
    (number : Nat) : digitsValue? base 0 (Nat.toDigits base number) = some number := by
  induction number using Nat.strongRecOn with
  | ind number ih =>
      have single (value : Nat) (small : value < base) (read : Nat) :
          digitsValue? base read [Nat.digitChar value] = some (base * read + value) := by
        simp [digitsValue?, Bytes.hexValue?_digitChar value (by omega), small]
      by_cases small : number < base
      · rw [Nat.toDigits_of_lt_base small, single number small]
        simp
      · have less : number / base < number := Nat.div_lt_self (by omega) several
        rw [Nat.toDigits_of_base_le several (by omega), digitsValue?_append, ih _ less,
          Option.bind_some, single _ (Nat.mod_lt _ (by omega)), Nat.div_add_mod]

theorem dropPlus_of_digitsValue? {base read number : Nat} {digits : List Char}
    (valued : digitsValue? base read digits = some number) : dropPlus digits = digits := by
  unfold dropPlus
  split
  · simp [digitsValue?, hexValue?] at valued
  · rfl

theorem natural?_toDigits {base bound number : Nat} (several : 1 < base) (few : base ≤ 16)
    (below : number < bound) : natural? base bound (Nat.toDigits base number) = some number := by
  have valued := digitsValue?_toDigits several few number
  unfold natural?
  rw [dropPlus_of_digitsValue? valued]
  split
  · next empty => exact absurd empty Nat.toDigits_ne_nil
  · simp [valued, below]

@[simp] theorem word64?_decimal (number : UInt64) :
    word64? 10 (decimal number.toNat) = some number := by
  simp [word64?, decimal, natural?_toDigits (by decide : 1 < 10) (by decide) number.toNat_lt]

@[simp] theorem word64?_hexadecimal (number : UInt64) :
    word64? 16 (hexadecimal number.toNat) = some number := by
  simp [word64?, hexadecimal, natural?_toDigits (by decide : 1 < 16) (by decide) number.toNat_lt]

theorem digitsValue?_hex (read : Nat) (bytes : Bytes) :
    digitsValue? 16 read bytes.hex =
      some (bytes.foldl (fun value byte => 256 * value + byte.toNat) read) := by
  induction bytes generalizing read with
  | nil => rfl
  | cons byte rest ih =>
      have small : byte.toNat < 256 := byte.toNat_lt
      have high : byte.toNat / 16 < 16 := by omega
      have low : byte.toNat % 16 < 16 := by omega
      have whole : 16 * (16 * read + byte.toNat / 16) + byte.toNat % 16 =
          256 * read + byte.toNat := by omega
      simp [Bytes.hex, digitsValue?, Bytes.hexValue?_digitChar _ high,
        Bytes.hexValue?_digitChar _ low, high, low, whole, ih]

theorem digitsValue?_hex_bigEndian (width number : Nat) :
    digitsValue? 16 0 (Bytes.bigEndian width number).hex = some (number % Nat.pow 256 width) := by
  rw [digitsValue?_hex, Bytes.bigEndian, List.foldl_reverse, ← Bytes.ofLittleEndian_eq_foldr,
    Bytes.ofLittleEndian_littleEndian]

theorem word32?_hex_bigEndian (number : UInt32) :
    word32? 16 (String.ofList (Bytes.bigEndian 4 number.toNat).hex) = some number := by
  have small : number.toNat < Nat.pow 256 4 := number.toNat_lt
  have valued : digitsValue? 16 0 (Bytes.bigEndian 4 number.toNat).hex = some number.toNat := by
    rw [digitsValue?_hex_bigEndian, Nat.mod_eq_of_lt small]
  unfold word32? natural?
  rw [String.toList_ofList, dropPlus_of_digitsValue? valued]
  split
  · next empty =>
      have := congrArg List.length empty
      simp at this
  · have fits : number.toNat < UInt32.size := number.toNat_lt_size
    rw [valued, Option.filter_some, decide_eq_true fits, if_pos rfl, Option.map_some,
      UInt32.ofNat_toNat]

end Text

end GuardedRows
