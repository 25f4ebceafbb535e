import GuardedRows.Error

/-!
# Waiting until something is ready

A poller makes attempts until one of them says that it is ready, sleeping between them for
as long as the last attempt suggests. No sleep is longer than the greatest delay, and none
goes beyond the timeout.
-/

set_option autoImplicit false

namespace GuardedRows

structure Clock (ω : Type) where
  now : ω → Duration
  sleep : Duration → ω → ω

/-- How long ago a moment is. A moment that is still to come is no time ago. -/
def Clock.since {ω : Type} (clock : Clock ω) (start : Duration) (world : ω) : Duration :=
  ⟨(clock.now world).nanoseconds - start.nanoseconds⟩

structure Poller where
  timeout : Duration
  maxDelay : Duration
  deriving DecidableEq

namespace Poller

def ofConfig (config : Config) : Poller := ⟨config.timeout, config.maxDelay⟩

/-- How long to sleep after an attempt that left some time. -/
def delay (poller : Poller) (hint : UInt64) (elapsed : Duration)
    (early : elapsed.nanoseconds < poller.timeout.nanoseconds) : Duration :=
  ((Duration.ofMilliseconds hint.toNat).shorter poller.maxDelay).shorter
    (poller.timeout.minus elapsed (Nat.le_of_lt early))

variable {ω : Type}

/-- The rest of a wait, from the attempt with the number `count` on. -/
def pollFrom (poller : Poller) (clock : Clock ω) (what : String) (start : Duration)
    (attempt : EStateM Error ω UInt64) :
    (rounds count : Nat) → ω → Option (EStateM.Result Error ω Nat)
  | 0, _, _ => none
  | rounds + 1, count, world =>
      match attempt world with
      | .error error world => some (.error error world)
      | .ok hint world =>
          if hint = 0 then some (.ok count world)
          else
            let elapsed := clock.since start world
            if late : poller.timeout.nanoseconds ≤ elapsed.nanoseconds then
              some (.error (.timeout elapsed what) world)
            else
              pollFrom poller clock what start attempt rounds (count + 1)
                (clock.sleep (poller.delay hint elapsed (Nat.lt_of_not_le late)) world)

/-- Makes attempts until one answers zero, and counts them. The first attempt that fails
ends the wait with its own error. An attempt that is not ready at the timeout or later is
the last; an attempt that is ready counts at any time. There is no result yet if so many
rounds decide nothing, and a wait that no number of rounds decides never ends. -/
def poll? (poller : Poller) (clock : Clock ω) (what : String)
    (attempt : EStateM Error ω UInt64) (rounds : Nat) (world : ω) :
    Option (EStateM.Result Error ω Nat) :=
  poller.pollFrom clock what (clock.now world) attempt rounds 1 world

/-- How many rounds are enough: if the greatest delay is not zero every sleep takes a
nanosecond or more, so the timeout is over after one round for each of its nanoseconds. -/
def rounds (poller : Poller) : Nat := poller.timeout.nanoseconds + 1

/-- The wait as a step. What stands here for more rounds than enough is met only by a poller
that allows no sleep, or on a clock that goes back or cuts a sleep short. -/
def poll (poller : Poller) (clock : Clock ω) (what : String)
    (attempt : EStateM Error ω UInt64) : EStateM Error ω Nat := fun world =>
  (poller.poll? clock what attempt poller.rounds world).getD
    (.error (.timeout poller.timeout what) world)

end Poller

/-! ## States with a clock -/

structure Timed (σ : Type) where
  state : σ
  now : Duration := ⟨0⟩

namespace Timed

variable {σ : Type}

/-- A clock on which a sleep takes exactly as long as it should. -/
def clock : Clock (Timed σ) where
  now := Timed.now
  sleep span world :=
    { world with now := ⟨world.now.nanoseconds + span.nanoseconds⟩ }

def spend {α : Type} (cost : Duration) (step : EStateM Error σ α) :
    EStateM Error (Timed σ) α := fun world =>
  let now : Duration := ⟨world.now.nanoseconds + cost.nanoseconds⟩
  match step world.state with
  | .ok value state => .ok value ⟨state, now⟩
  | .error error state => .error error ⟨state, now⟩

def run {α : Type} (step : EStateM Error (Timed σ) α) : EStateM Error σ α := fun state =>
  match step { state } with
  | .ok value world => .ok value world.state
  | .error error world => .error error world.state

end Timed

end GuardedRows
