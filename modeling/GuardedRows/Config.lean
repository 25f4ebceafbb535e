import GuardedRows.Text

/-!
# Configuration

The limits transactions and table operations run under, with the spans of time among them.
Every setting has a default, so any part of a configuration can be left out.
-/

set_option autoImplicit false

namespace GuardedRows

/-! ## Durations

A span of time in nanoseconds. Its text uses the largest unit that leaves a whole part,
and drops the trailing zeros of the fraction.
-/

structure Duration where
  nanoseconds : Nat
  deriving DecidableEq

namespace Duration

def longest : Duration := ⟨(UInt64.size - 1) * 1000000000 + 999999999⟩

def ofMilliseconds (milliseconds : Nat) : Duration := ⟨milliseconds * 1000000⟩

@[simp] theorem nanoseconds_ofMilliseconds (milliseconds : Nat) :
    (ofMilliseconds milliseconds).nanoseconds = milliseconds * 1000000 := rfl

def milliseconds (span : Duration) : Nat := span.nanoseconds / 1000000

def shorter (left right : Duration) : Duration :=
  if left.nanoseconds ≤ right.nanoseconds then left else right

/-- What is left of a span after a part of it. No span is less than nothing. -/
def minus (whole part : Duration) (_ : part.nanoseconds ≤ whole.nanoseconds) : Duration :=
  ⟨whole.nanoseconds - part.nanoseconds⟩

@[simp] theorem nanoseconds_minus {whole part : Duration}
    (fits : part.nanoseconds ≤ whole.nanoseconds) :
    (whole.minus part fits).nanoseconds = whole.nanoseconds - part.nanoseconds := rfl

@[simp] theorem nanoseconds_shorter (left right : Duration) :
    (left.shorter right).nanoseconds = min left.nanoseconds right.nanoseconds := by
  unfold shorter
  split <;> omega

def fraction : Nat → Nat → List Char
  | 0, _ => []
  | places + 1, number =>
      if number = 0 then []
      else Nat.digitChar (number / Nat.pow 10 places) ::
        fraction places (number % Nat.pow 10 places)

def inUnit (places : Nat) (unit : String) (nanoseconds : Nat) : String :=
  let whole := Text.decimal (nanoseconds / Nat.pow 10 places)
  match fraction places (nanoseconds % Nat.pow 10 places) with
  | [] => whole ++ unit
  | digits => whole ++ "." ++ String.ofList digits ++ unit

/-- The span in its largest unit of seconds, milliseconds, microseconds and nanoseconds. -/
def text (span : Duration) : String :=
  let nanoseconds := span.nanoseconds
  if 1000000000 ≤ nanoseconds then inUnit 9 "s" nanoseconds
  else if 1000000 ≤ nanoseconds then inUnit 6 "ms" nanoseconds
  else if 1000 ≤ nanoseconds then inUnit 3 "µs" nanoseconds
  else inUnit 0 "ns" nanoseconds

end Duration

/-! ## Configurations -/

structure Config where
  maxSteps : UInt32 := 100
  maxWaitHint : UInt64 := 30000
  minWaitHint : UInt64 := 1
  readinessTimeout : UInt64 := 300000
  readinessMaxDelay : UInt64 := 30000
  deriving DecidableEq, Inhabited

namespace Config

/-! ## Settings -/

inductive Setting where
  | whole (number : Nat)
  | other
  deriving DecidableEq

def Setting.below? (bound : Nat) : Setting → Option Nat
  | .whole number => if number < bound then some number else none
  | .other => none

def names : List String :=
  ["max_repos", "max_wait_hint_ms", "min_wait_hint_ms", "readiness_timeout_ms",
    "readiness_max_delay_ms"]

/-- Changes one setting. An unknown name changes nothing, and a value that does not fit the
setting is refused. -/
def set? (config : Config) (name : String) (setting : Setting) : Option Config :=
  let word64 := (setting.below? UInt64.size).map UInt64.ofNat
  if name = "max_repos" then
    (setting.below? UInt32.size).map fun number =>
      { config with maxSteps := UInt32.ofNat number }
  else if name = "max_wait_hint_ms" then
    word64.map fun number => { config with maxWaitHint := number }
  else if name = "min_wait_hint_ms" then
    word64.map fun number => { config with minWaitHint := number }
  else if name = "readiness_timeout_ms" then
    word64.map fun number => { config with readinessTimeout := number }
  else if name = "readiness_max_delay_ms" then
    word64.map fun number => { config with readinessMaxDelay := number }
  else some config

def ofFields? (fields : List (String × Setting)) : Option Config :=
  fields.foldlM (fun config field => config.set? field.1 field.2) {}

def ofSequence? (settings : List Setting) : Option Config :=
  if settings.length ≤ names.length then ofFields? (names.zip settings) else none

/-! ## Limits -/

inductive Flaw where
  | noSteps
  | hintBounds (least greatest : UInt64)
  | noDelay
  deriving DecidableEq

def Flaw.text : Flaw → String
  | .noSteps => "max_repos must be positive"
  | .hintBounds least greatest =>
      "wait hint bounds must satisfy 0 < min (" ++ Text.decimal least.toNat ++ ") <= max (" ++
        Text.decimal greatest.toNat ++ ")"
  | .noDelay => "readiness_max_delay_ms must be positive"

def flaw? (config : Config) : Option Flaw :=
  if config.maxSteps = 0 then some .noSteps
  else if config.minWaitHint = 0 ∨ config.maxWaitHint < config.minWaitHint then
    some (.hintBounds config.minWaitHint config.maxWaitHint)
  else if config.readinessMaxDelay = 0 then some .noDelay
  else none

/-- How long to wait before the next pass, in milliseconds: as long as the last pass took,
within the bounds. -/
def waitHint (config : Config) (elapsed : Duration) : UInt64 :=
  let elapsed := min elapsed.milliseconds (UInt64.size - 1)
  UInt64.ofNat (min (max elapsed config.minWaitHint.toNat) config.maxWaitHint.toNat)

def timeout (config : Config) : Duration := .ofMilliseconds config.readinessTimeout.toNat

def maxDelay (config : Config) : Duration := .ofMilliseconds config.readinessMaxDelay.toNat

/-! ## Sound configurations -/

/-- A configuration without a flaw gives hints within its bounds, and none of them is zero. -/
theorem waitHint_bounds {config : Config} (sound : config.flaw? = none) (elapsed : Duration) :
    config.minWaitHint ≤ config.waitHint elapsed ∧
      config.waitHint elapsed ≤ config.maxWaitHint ∧ config.waitHint elapsed ≠ 0 := by
  have bounds : config.minWaitHint ≠ 0 ∧ config.minWaitHint ≤ config.maxWaitHint := by
    unfold flaw? at sound
    grind
  have greatest : config.maxWaitHint.toNat < UInt64.size := config.maxWaitHint.toNat_lt_size
  have hint : (config.waitHint elapsed).toNat =
      min (max (min elapsed.milliseconds (UInt64.size - 1)) config.minWaitHint.toNat)
        config.maxWaitHint.toNat :=
    UInt64.toNat_ofNat_of_lt' (by omega)
  have least : config.minWaitHint.toNat ≠ 0 := fun zero =>
    bounds.1 (UInt64.toNat_inj.mp zero)
  have order : config.minWaitHint.toNat ≤ config.maxWaitHint.toNat :=
    UInt64.le_iff_toNat_le.mp bounds.2
  refine ⟨UInt64.le_iff_toNat_le.mpr ?_, UInt64.le_iff_toNat_le.mpr ?_, fun zero => ?_⟩
  · rw [hint]
    omega
  · rw [hint]
    omega
  · rw [zero, UInt64.toNat_zero] at hint
    omega

/-- The greatest delay of a configuration without a flaw is a millisecond or more. -/
theorem millisecond_le_maxDelay {config : Config} (sound : config.flaw? = none) :
    1000000 ≤ config.maxDelay.nanoseconds := by
  have delays : config.readinessMaxDelay ≠ 0 := by
    unfold flaw? at sound
    grind
  have positive : 0 < config.readinessMaxDelay.toNat := Nat.pos_of_ne_zero fun zero =>
    delays (UInt64.toNat_inj.mp zero)
  rw [maxDelay, Duration.nanoseconds_ofMilliseconds]
  omega

end Config

end GuardedRows
