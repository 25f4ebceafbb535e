import GuardedRows.Config
import GuardedRows.Poller
import Mathlib

/-!
# Waits end, and in time

A wait is played against a script, which says how each attempt comes out and what the clock
shows after it. The first attempt that is ready, fails or comes too late decides the wait, and
nothing is done after it. If the clock never goes back and no sleep is cut short, the sleeps
take no longer than the timeout together. As each of them takes a millisecond or all the time
that is left, a wait with a timeout of some milliseconds makes at most one attempt more.
-/

set_option autoImplicit false

namespace GuardedRows

namespace Poller

variable {ω : Type} {poller : Poller} {clock : Clock ω} {what : String} {start : Duration}
  {attempt : EStateM Error ω UInt64} {world tried : ω} {hint : UInt64} {error : Error}

/-! ## One round -/

theorem pollFrom_of_failed (failed : attempt world = .error error tried) (rounds count : Nat) :
    poller.pollFrom clock what start attempt (rounds + 1) count world =
      some (.error error tried) := by
  rw [pollFrom, failed]

theorem pollFrom_of_ready (ready : attempt world = .ok 0 tried) (rounds count : Nat) :
    poller.pollFrom clock what start attempt (rounds + 1) count world =
      some (.ok count tried) := by
  rw [pollFrom, ready]
  exact if_pos rfl

theorem pollFrom_of_late (answered : attempt world = .ok hint tried) (busy : hint ≠ 0)
    (late : poller.timeout.nanoseconds ≤ (clock.since start tried).nanoseconds)
    (rounds count : Nat) :
    poller.pollFrom clock what start attempt (rounds + 1) count world =
      some (.error (.timeout (clock.since start tried) what) tried) := by
  rw [pollFrom, answered]
  exact (if_neg busy).trans (dif_pos late)

theorem pollFrom_of_early (answered : attempt world = .ok hint tried) (busy : hint ≠ 0)
    (early : (clock.since start tried).nanoseconds < poller.timeout.nanoseconds)
    (rounds count : Nat) :
    poller.pollFrom clock what start attempt (rounds + 1) count world =
      poller.pollFrom clock what start attempt rounds (count + 1)
        (clock.sleep (poller.delay hint (clock.since start tried) early) tried) := by
  rw [pollFrom, answered]
  exact (if_neg busy).trans (dif_neg (Nat.not_le_of_lt early))

theorem hint_pos (busy : hint ≠ 0) : 0 < hint.toNat :=
  Nat.pos_of_ne_zero fun zero => busy (UInt64.toNat_inj.mp zero)

theorem delay_pos (lasts : 0 < poller.maxDelay.nanoseconds) (busy : hint ≠ 0)
    {elapsed : Duration} (early : elapsed.nanoseconds < poller.timeout.nanoseconds) :
    0 < (poller.delay hint elapsed early).nanoseconds := by
  have positive := hint_pos busy
  simp only [delay, Duration.nanoseconds_shorter, Duration.nanoseconds_ofMilliseconds,
    Duration.nanoseconds_minus]
  omega

/-- The rounds are enough on any clock that does not go back and does not cut a sleep short,
unless the poller allows no sleep at all: every round leaves less of the timeout. -/
theorem poll?_rounds (lasts : 0 < poller.maxDelay.nanoseconds)
    (onward : ∀ world hint tried, attempt world = .ok hint tried →
      (clock.now world).nanoseconds ≤ (clock.now tried).nanoseconds)
    (slept : ∀ span world, (clock.now world).nanoseconds + span.nanoseconds ≤
      (clock.now (clock.sleep span world)).nanoseconds) (what : String) (world : ω) :
    poller.poll? clock what attempt poller.rounds world =
      some (poller.poll clock what attempt world) := by
  have ends : ∀ rounds start count world, start.nanoseconds ≤ (clock.now world).nanoseconds →
      poller.timeout.nanoseconds - (clock.since start world).nanoseconds < rounds →
      ∃ result, poller.pollFrom clock what start attempt rounds count world = some result := by
    intro rounds
    induction rounds with
    | zero => exact fun _ _ _ _ none => absurd none (Nat.not_lt_zero _)
    | succ rounds ih =>
        intro start count world begun shrinks
        cases tried : attempt world with
        | error error after => exact ⟨_, pollFrom_of_failed tried rounds count⟩
        | ok hint after =>
            have passed := onward world hint after tried
            by_cases ready : hint = 0
            · subst ready
              exact ⟨_, pollFrom_of_ready tried rounds count⟩
            · by_cases late :
                  poller.timeout.nanoseconds ≤ (clock.since start after).nanoseconds
              · exact ⟨_, pollFrom_of_late tried ready late rounds count⟩
              · have early := Nat.lt_of_not_le late
                have pause := delay_pos lasts ready early
                have waited := slept (poller.delay hint (clock.since start after) early) after
                rw [pollFrom_of_early tried ready early]
                refine ih start _ _ (by omega) ?_
                simp only [Clock.since] at early shrinks waited pause ⊢
                omega
  have within : poller.timeout.nanoseconds -
      (clock.since (clock.now world) world).nanoseconds < poller.rounds :=
    Nat.lt_succ_of_le (Nat.sub_le _ _)
  obtain ⟨result, ended⟩ := ends _ (clock.now world) 1 world (Nat.le_refl _) within
  have polled : poller.poll? clock what attempt poller.rounds world = some result := ended
  rw [poll, polled, Option.getD_some]

/-- Under a sound configuration a wait of timed steps has rounds enough. -/
theorem poll?_rounds_timed {σ : Type} {config : Config} (sound : config.flaw? = none)
    (cost : Duration) (step : EStateM Error σ UInt64) (what : String) (world : Timed σ) :
    (ofConfig config).poll? Timed.clock what (Timed.spend cost step) (ofConfig config).rounds
        world =
      some ((ofConfig config).poll Timed.clock what (Timed.spend cost step) world) := by
  refine poll?_rounds ?_ ?_ (fun _ _ => Nat.le_refl _) what world
  · exact Nat.lt_of_lt_of_le (by decide) (Config.millisecond_le_maxDelay sound)
  · intro world hint tried answered
    unfold Timed.spend at answered
    dsimp only at answered
    split at answered
    · cases answered
      exact Nat.le_add_right _ _
    · cases answered

end Poller

/-! ## Scripts -/

/-- What a wait meets: how each attempt comes out, with the first one at number one, and what
the clock shows when the wait begins, at number zero, and after each attempt. -/
structure Script where
  answer : Nat → Except Error UInt64
  reading : Nat → Duration

/-- What a wait has done so far. -/
structure Progress where
  attempts : Nat := 0
  sleeps : List Duration := []
  deriving DecidableEq

namespace Script

def attempt (script : Script) : EStateM Error Progress UInt64 := fun progress =>
  let tried := { progress with attempts := progress.attempts + 1 }
  match script.answer tried.attempts with
  | .ok hint => .ok hint tried
  | .error error => .error error tried

def clock (script : Script) : Clock Progress where
  now progress := script.reading progress.attempts
  sleep span progress := { progress with sleeps := progress.sleeps ++ [span] }

/-- The outcome of a wait of so many rounds and what was done in it. -/
def wait (script : Script) (poller : Poller) (what : String) (rounds : Nat) :
    Option (EStateM.Result Error Progress Nat) :=
  poller.poll? script.clock what script.attempt rounds {}

/-- The outcome of the poller's own wait and what was done in it. -/
def poll (script : Script) (poller : Poller) (what : String) :
    EStateM.Result Error Progress Nat :=
  poller.poll script.clock what script.attempt {}

variable (script : Script) (poller : Poller)

/-- How long the wait has taken when an attempt is over. -/
def elapsed (number : Nat) : Duration :=
  ⟨(script.reading number).nanoseconds - (script.reading 0).nanoseconds⟩

/-- An attempt does not fail and is not ready, and the timeout is not over after it. -/
def Waits (number : Nat) : Prop :=
  (∃ hint, script.answer number = .ok hint ∧ hint ≠ 0) ∧
    (script.elapsed number).nanoseconds < poller.timeout.nanoseconds

/-- An attempt is made: none of those before it decides the wait. -/
def Reaches (number : Nat) : Prop :=
  1 ≤ number ∧ ∀ earlier, 1 ≤ earlier → earlier < number → script.Waits poller earlier

/-- The sleep after an attempt that does not decide the wait. -/
def pause (number : Nat) : Duration :=
  match script.answer number with
  | .error _ => ⟨0⟩
  | .ok hint =>
      if early : (script.elapsed number).nanoseconds < poller.timeout.nanoseconds then
        poller.delay hint (script.elapsed number) early
      else ⟨0⟩

/-- The sleeps after so many attempts. -/
def pauses (count : Nat) : List Duration := (List.range' 1 count).map (script.pause poller)

/-- What has been done when an attempt is the last thing done. -/
def after (number : Nat) : Progress := ⟨number, script.pauses poller (number - 1)⟩

variable {script poller} {what : String} {number : Nat} {hint : UInt64} {error : Error}

theorem attempt_of_answer (answered : script.answer (number + 1) = .ok hint)
    (sleeps : List Duration) :
    script.attempt ⟨number, sleeps⟩ = .ok hint ⟨number + 1, sleeps⟩ := by
  unfold attempt
  dsimp only
  rw [answered]

theorem attempt_of_failed (failed : script.answer (number + 1) = .error error)
    (sleeps : List Duration) :
    script.attempt ⟨number, sleeps⟩ = .error error ⟨number + 1, sleeps⟩ := by
  unfold attempt
  dsimp only
  rw [failed]

theorem pause_eq_delay (answered : script.answer number = .ok hint)
    (early : (script.elapsed number).nanoseconds < poller.timeout.nanoseconds) :
    script.pause poller number = poller.delay hint (script.elapsed number) early := by
  unfold pause
  rw [answered]
  exact dif_pos early

theorem pauses_succ (count : Nat) :
    script.pauses poller (count + 1) =
      script.pauses poller count ++ [script.pause poller (count + 1)] := by
  rw [pauses, List.range'_1_concat, List.map_append, Nat.add_comm 1]
  rfl

theorem sum_pauses_succ (count : Nat) :
    ((script.pauses poller (count + 1)).map Duration.nanoseconds).sum =
      ((script.pauses poller count).map Duration.nanoseconds).sum +
        (script.pause poller (count + 1)).nanoseconds := by
  rw [pauses_succ, List.map_append, List.sum_append, List.map_singleton, List.sum_singleton]

theorem reaches_succ_iff :
    script.Reaches poller (number + 2) ↔
      script.Reaches poller (number + 1) ∧ script.Waits poller (number + 1) := by
  constructor
  · rintro ⟨_, waits⟩
    exact ⟨⟨by omega, fun earlier first below => waits earlier first (by omega)⟩,
      waits (number + 1) (by omega) (by omega)⟩
  · rintro ⟨⟨_, waits⟩, last⟩
    refine ⟨by omega, fun earlier first below => ?_⟩
    rcases Nat.lt_or_eq_of_le (Nat.le_of_lt_succ below) with before | rfl
    · exact waits earlier first before
    · exact last

/-! ## Which attempt decides -/

/-- An attempt after which the wait goes on brings it to the next attempt. -/
theorem pollFrom_of_waits (waits : script.Waits poller (number + 1)) (rounds : Nat)
    (sleeps : List Duration) :
    poller.pollFrom script.clock what (script.reading 0) script.attempt (rounds + 1)
        (number + 1) ⟨number, sleeps⟩ =
      poller.pollFrom script.clock what (script.reading 0) script.attempt rounds (number + 2)
        ⟨number + 1, sleeps ++ [script.pause poller (number + 1)]⟩ := by
  obtain ⟨⟨hint, answered, busy⟩, early⟩ := waits
  have since : (script.clock.since (script.reading 0) ⟨number + 1, sleeps⟩).nanoseconds <
      poller.timeout.nanoseconds := early
  rw [pause_eq_delay answered early]
  exact Poller.pollFrom_of_early (attempt_of_answer answered sleeps) busy since rounds
    (number + 1)

theorem wait_of_reaches (reaches : script.Reaches poller (number + 1)) (rounds : Nat) :
    script.wait poller what (number + rounds) =
      poller.pollFrom script.clock what (script.reading 0) script.attempt rounds (number + 1)
        ⟨number, script.pauses poller number⟩ := by
  induction number generalizing rounds with
  | zero =>
      rw [Nat.zero_add]
      rfl
  | succ number ih =>
      obtain ⟨before, waits⟩ := reaches_succ_iff.mp reaches
      rw [Nat.succ_add_eq_add_succ, ih before, pollFrom_of_waits waits, pauses_succ]

/-- How a wait comes out if this attempt is the last one. -/
inductive Decides (script : Script) (poller : Poller) (what : String) (number : Nat) :
    EStateM.Result Error Progress Nat → Prop where
  | ready : script.answer number = .ok 0 →
      Decides script poller what number (.ok number (script.after poller number))
  | failed {error : Error} : script.answer number = .error error →
      Decides script poller what number (.error error (script.after poller number))
  | late {hint : UInt64} : script.answer number = .ok hint → hint ≠ 0 →
      poller.timeout.nanoseconds ≤ (script.elapsed number).nanoseconds →
      Decides script poller what number
        (.error (.timeout (script.elapsed number) what) (script.after poller number))

theorem exists_decides (stopped : ¬ script.Waits poller number) :
    ∃ result, script.Decides poller what number result := by
  cases answered : script.answer number with
  | error error => exact ⟨_, .failed answered⟩
  | ok hint =>
      by_cases ready : hint = 0
      · subst ready
        exact ⟨_, .ready answered⟩
      · exact ⟨_, .late answered ready (Nat.le_of_not_lt fun early =>
          stopped ⟨⟨hint, answered, ready⟩, early⟩)⟩

theorem wait_of_decides {rounds : Nat} {result : EStateM.Result Error Progress Nat}
    (within : number ≤ rounds) (reaches : script.Reaches poller number)
    (decides : script.Decides poller what number result) :
    script.wait poller what rounds = some result := by
  obtain ⟨number, rfl⟩ := Nat.exists_eq_add_of_le' reaches.1
  obtain ⟨rest, rfl⟩ := Nat.exists_eq_add_of_le within
  rw [Nat.succ_add_eq_add_succ, wait_of_reaches reaches]
  cases decides with
  | ready answered => exact Poller.pollFrom_of_ready (attempt_of_answer answered _) _ _
  | failed answered => exact Poller.pollFrom_of_failed (attempt_of_failed answered _) _ _
  | late answered busy late =>
      exact Poller.pollFrom_of_late (attempt_of_answer answered _) busy late _ _

/-- There is no result yet while every round brings the wait to another attempt. -/
theorem wait_eq_none {rounds : Nat} (reaches : script.Reaches poller (rounds + 1)) :
    script.wait poller what rounds = none :=
  wait_of_reaches reaches 0

/-- If an attempt is not made, one of those before it decides the wait. -/
theorem exists_reaches_of_not_reaches {rounds : Nat}
    (missed : ¬ script.Reaches poller (rounds + 1)) :
    ∃ last, last ≤ rounds ∧ script.Reaches poller last ∧ ¬ script.Waits poller last := by
  induction rounds with
  | zero =>
      exact absurd ⟨Nat.le_refl 1, fun earlier first below => by omega⟩ missed
  | succ rounds ih =>
      by_cases reaches : script.Reaches poller (rounds + 1)
      · exact ⟨rounds + 1, Nat.le_refl _, reaches, fun waits =>
          missed (reaches_succ_iff.mpr ⟨reaches, waits⟩)⟩
      · obtain ⟨last, within, decided⟩ := ih reaches
        exact ⟨last, Nat.le_succ_of_le within, decided⟩

/-- A wait comes out as the first attempt says that does not let it go on. -/
theorem wait_eq_some_iff {rounds : Nat} {result : EStateM.Result Error Progress Nat} :
    script.wait poller what rounds = some result ↔
      ∃ number, number ≤ rounds ∧ script.Reaches poller number ∧
        script.Decides poller what number result := by
  constructor
  · intro ended
    have missed : ¬ script.Reaches poller (rounds + 1) := fun reaches => by
      rw [wait_eq_none reaches] at ended
      cases ended
    obtain ⟨last, within, reaches, stopped⟩ := exists_reaches_of_not_reaches missed
    obtain ⟨outcome, decides⟩ := exists_decides stopped
    obtain rfl := Option.some.inj ((wait_of_decides within reaches decides).symm.trans ended)
    exact ⟨last, within, reaches, decides⟩
  · rintro ⟨number, within, reaches, decides⟩
    exact wait_of_decides within reaches decides

theorem poll_of_decides {result : EStateM.Result Error Progress Nat}
    (within : number ≤ poller.rounds) (reaches : script.Reaches poller number)
    (decides : script.Decides poller what number result) :
    script.poll poller what = result := by
  have ended : poller.poll? script.clock what script.attempt poller.rounds {} = some result :=
    wait_of_decides within reaches decides
  rw [poll, Poller.poll, ended, Option.getD_some]

/-! ## How long it takes -/

/-- The clock never goes back, and a sleep that is asked for is not cut short. -/
structure Flows (script : Script) (poller : Poller) : Prop where
  ascends : ∀ number,
    (script.reading number).nanoseconds ≤ (script.reading (number + 1)).nanoseconds
  slept : ∀ number, script.Reaches poller number → script.Waits poller number →
    (script.reading number).nanoseconds + (script.pause poller number).nanoseconds ≤
      (script.reading (number + 1)).nanoseconds

/-- Some time is left of the timeout wherever the rest of it bounds a sleep. -/
theorem Waits.exists_rest (waits : script.Waits poller number) :
    ∃ hint rest, script.answer number = .ok hint ∧ hint ≠ 0 ∧ 0 < rest ∧
      (script.elapsed number).nanoseconds + rest = poller.timeout.nanoseconds ∧
      (script.pause poller number).nanoseconds =
        min (min (hint.toNat * 1000000) poller.maxDelay.nanoseconds) rest := by
  obtain ⟨⟨hint, answered, busy⟩, early⟩ := waits
  refine ⟨hint, poller.timeout.nanoseconds - (script.elapsed number).nanoseconds, answered, busy,
    by omega, by omega, ?_⟩
  rw [pause_eq_delay answered early]
  simp [Poller.delay]

theorem Waits.elapsed_add_pause_le (waits : script.Waits poller number) :
    (script.elapsed number).nanoseconds + (script.pause poller number).nanoseconds ≤
      poller.timeout.nanoseconds := by
  obtain ⟨hint, rest, _, _, _, left, pause⟩ := waits.exists_rest
  omega

/-- A sleep takes a unit or all the time that is left. -/
theorem Waits.unit_le_pause_or (waits : script.Waits poller number) {unit : Nat}
    (short : unit ≤ 1000000) (allowed : unit ≤ poller.maxDelay.nanoseconds) :
    unit ≤ (script.pause poller number).nanoseconds ∨
      (script.elapsed number).nanoseconds + (script.pause poller number).nanoseconds =
        poller.timeout.nanoseconds := by
  obtain ⟨hint, rest, _, busy, _, left, pause⟩ := waits.exists_rest
  have hinted : unit ≤ hint.toNat * 1000000 :=
    Nat.le_trans short (Nat.le_mul_of_pos_left _ (Poller.hint_pos busy))
  rw [pause]
  rcases Nat.le_total (min (hint.toNat * 1000000) poller.maxDelay.nanoseconds) rest with
    within | beyond
  · rw [Nat.min_eq_left within]
    exact .inl (Nat.le_min.mpr ⟨hinted, allowed⟩)
  · rw [Nat.min_eq_right beyond]
    exact .inr left

namespace Flows

variable (flows : script.Flows poller)
include flows

theorem reading_zero_le (number : Nat) :
    (script.reading 0).nanoseconds ≤ (script.reading number).nanoseconds := by
  induction number with
  | zero => exact Nat.le_refl _
  | succ number ih => exact Nat.le_trans ih (flows.ascends number)

theorem elapsed_add_pause_le (reaches : script.Reaches poller number)
    (waits : script.Waits poller number) :
    (script.elapsed number).nanoseconds + (script.pause poller number).nanoseconds ≤
      (script.elapsed (number + 1)).nanoseconds := by
  have begun := flows.reading_zero_le number
  have slept := flows.slept number reaches waits
  simp only [elapsed]
  omega

theorem sum_pauses_le_elapsed (reaches : script.Reaches poller (number + 1)) :
    ((script.pauses poller number).map Duration.nanoseconds).sum ≤
      (script.elapsed (number + 1)).nanoseconds := by
  induction number with
  | zero => exact Nat.zero_le _
  | succ number ih =>
      obtain ⟨before, waits⟩ := reaches_succ_iff.mp reaches
      have slept := flows.elapsed_add_pause_le before waits
      have earlier := ih before
      rw [sum_pauses_succ]
      omega

theorem sum_pauses_le_timeout (reaches : script.Reaches poller (number + 1)) :
    ((script.pauses poller number).map Duration.nanoseconds).sum ≤
      poller.timeout.nanoseconds := by
  cases number with
  | zero => exact Nat.zero_le _
  | succ number =>
      obtain ⟨before, waits⟩ := reaches_succ_iff.mp reaches
      have earlier := flows.sum_pauses_le_elapsed before
      have lastFits := waits.elapsed_add_pause_le
      rw [sum_pauses_succ]
      omega

/-- Every attempt but the first finds a unit more gone by, or the timeout over. -/
theorem min_mul_le_elapsed {unit : Nat} (short : unit ≤ 1000000)
    (allowed : unit ≤ poller.maxDelay.nanoseconds)
    (reaches : script.Reaches poller (number + 1)) :
    min (number * unit) poller.timeout.nanoseconds ≤
      (script.elapsed (number + 1)).nanoseconds := by
  induction number with
  | zero =>
      rw [Nat.zero_mul, Nat.zero_min]
      exact Nat.zero_le _
  | succ number ih =>
      obtain ⟨before, waits⟩ := reaches_succ_iff.mp reaches
      have slept := flows.elapsed_add_pause_le before waits
      have earlier := ih before
      have early := waits.2
      rw [Nat.succ_mul]
      rcases waits.unit_le_pause_or short allowed with whole | cut
      · clear short
        omega
      · exact Nat.le_trans (Nat.min_le_right _ _) (cut ▸ slept)

theorem exists_last {unit rounds : Nat} (short : unit ≤ 1000000)
    (allowed : unit ≤ poller.maxDelay.nanoseconds)
    (enough : poller.timeout.nanoseconds ≤ rounds * unit) :
    ∃ last, last ≤ rounds + 1 ∧ script.Reaches poller last ∧ ¬ script.Waits poller last := by
  by_cases reaches : script.Reaches poller (rounds + 1)
  · refine ⟨rounds + 1, Nat.le_refl _, reaches, fun waits => ?_⟩
    have late := flows.min_mul_le_elapsed short allowed reaches
    have early := waits.2
    omega
  · obtain ⟨last, within, decided⟩ := exists_reaches_of_not_reaches reaches
    exact ⟨last, Nat.le_succ_of_le within, decided⟩

end Flows

/-- What a wait had done when it ended. -/
def done : EStateM.Result Error Progress Nat → Progress
  | .ok _ progress => progress
  | .error _ progress => progress

theorem Decides.done_eq {result : EStateM.Result Error Progress Nat}
    (decides : script.Decides poller what number result) :
    done result = script.after poller number := by
  cases decides <;> rfl

/-- If one of so many attempts is the last, the poller's own wait makes no more, provided that
it has as many rounds. -/
theorem wait_eq_poll {rounds : Nat} (allowed : rounds ≤ poller.rounds)
    (last : ∃ last, last ≤ rounds ∧ script.Reaches poller last ∧ ¬ script.Waits poller last) :
    script.wait poller what rounds = some (script.poll poller what) ∧
      (done (script.poll poller what)).attempts ≤ rounds := by
  obtain ⟨number, within, reaches, stopped⟩ := last
  obtain ⟨result, decides⟩ := exists_decides stopped
  rw [poll_of_decides (Nat.le_trans within allowed) reaches decides, decides.done_eq]
  exact ⟨wait_of_decides within reaches decides, within⟩

/-- A wait is over with the first attempt that is ready, that fails, or that is not ready when
the timeout has passed; only after the other attempts does it go on, and it comes out as that
attempt says with nothing done after it. If the clock never goes back and no sleep is cut short,
no sleep is reckoned from less than no time and the sleeps fit into the timeout together, and
with a greatest delay that is not zero the poller's own wait ends so. With a greatest delay of
a millisecond or more, as every sound configuration has it, it ends after at most one attempt
more than the timeout has milliseconds. -/
theorem wait_ends_in_time (flows : script.Flows poller) (what : String) :
    (∀ rounds number progress, script.wait poller what rounds = some (.ok number progress) ↔
      number ≤ rounds ∧ script.Reaches poller number ∧ script.answer number = .ok 0 ∧
        progress = script.after poller number) ∧
    (∀ rounds error progress, script.wait poller what rounds = some (.error error progress) ↔
      ∃ number, number ≤ rounds ∧ script.Reaches poller number ∧
        progress = script.after poller number ∧
        (script.answer number = .error error ∨
          (∃ hint, script.answer number = .ok hint ∧ hint ≠ 0) ∧
            poller.timeout.nanoseconds ≤ (script.elapsed number).nanoseconds ∧
            error = .timeout (script.elapsed number) what)) ∧
    (∀ number, script.Reaches poller number →
      ((script.after poller number).sleeps.map Duration.nanoseconds).sum ≤
        poller.timeout.nanoseconds ∧
      ∀ earlier, 1 ≤ earlier → earlier < number →
        ∃ hint rest, script.answer earlier = .ok hint ∧ hint ≠ 0 ∧ 0 < rest ∧
          (script.elapsed earlier).nanoseconds + rest = poller.timeout.nanoseconds ∧
          (script.pause poller earlier).nanoseconds =
            min (min (hint.toNat * 1000000) poller.maxDelay.nanoseconds) rest) ∧
    (0 < poller.maxDelay.nanoseconds →
      script.wait poller what poller.rounds = some (script.poll poller what)) ∧
    (∀ milliseconds, 1000000 ≤ poller.maxDelay.nanoseconds →
      poller.timeout = .ofMilliseconds milliseconds →
      script.wait poller what (milliseconds + 1) = some (script.poll poller what) ∧
        (done (script.poll poller what)).attempts ≤ milliseconds + 1) ∧
    ∀ config : Config, config.flaw? = none → poller = .ofConfig config →
      script.wait poller what (config.readinessTimeout.toNat + 1) =
          some (script.poll poller what) ∧
        (done (script.poll poller what)).attempts ≤ config.readinessTimeout.toNat + 1 := by
  have bounded : ∀ milliseconds, 1000000 ≤ poller.maxDelay.nanoseconds →
      poller.timeout = .ofMilliseconds milliseconds →
      script.wait poller what (milliseconds + 1) = some (script.poll poller what) ∧
        (done (script.poll poller what)).attempts ≤ milliseconds + 1 := by
    intro milliseconds allowed whole
    have spans : poller.timeout.nanoseconds = milliseconds * 1000000 := by
      rw [whole, Duration.nanoseconds_ofMilliseconds]
    have rounds : milliseconds + 1 ≤ poller.rounds := by
      rw [Poller.rounds, spans]
      exact Nat.succ_le_succ (Nat.le_mul_of_pos_right _ (by decide))
    exact wait_eq_poll rounds (flows.exists_last (Nat.le_refl _) allowed (Nat.le_of_eq spans))
  refine ⟨fun rounds number progress => ?_, fun rounds error progress => ?_,
    fun number reaches => ⟨?_, ?_⟩, fun lasts => ?_, bounded, fun config sound made => ?_⟩
  · rw [wait_eq_some_iff]
    constructor
    · rintro ⟨number, within, reaches, decides⟩
      cases decides with
      | ready answered => exact ⟨within, reaches, answered, rfl⟩
    · rintro ⟨within, reaches, answered, rfl⟩
      exact ⟨number, within, reaches, .ready answered⟩
  · rw [wait_eq_some_iff]
    constructor
    · rintro ⟨number, within, reaches, decides⟩
      cases decides with
      | failed answered => exact ⟨number, within, reaches, rfl, .inl answered⟩
      | late answered busy late =>
          exact ⟨number, within, reaches, rfl, .inr ⟨⟨_, answered, busy⟩, late, rfl⟩⟩
    · rintro ⟨number, within, reaches, rfl, answered | ⟨⟨hint, answered, busy⟩, late, rfl⟩⟩
      · exact ⟨number, within, reaches, .failed answered⟩
      · exact ⟨number, within, reaches, .late answered busy late⟩
  · obtain ⟨count, rfl⟩ := Nat.exists_eq_add_of_le' reaches.1
    exact flows.sum_pauses_le_timeout reaches
  · exact fun earlier first below => (reaches.2 earlier first below).exists_rest
  · have enough : poller.timeout.nanoseconds ≤ poller.timeout.nanoseconds * 1 :=
      Nat.le_of_eq (Nat.mul_one _).symm
    exact (wait_eq_poll (Nat.le_refl _) (flows.exists_last (by decide) lasts enough)).1
  · subst made
    exact bounded config.readinessTimeout.toNat (Config.millisecond_le_maxDelay sound) rfl

/-- The last sleep is cut down to what is left, and the wait is over at the timeout. -/
def lastMoment : Script where
  answer number := .ok (if number ≤ 2 then 60 else 0)
  reading number := .ofMilliseconds (if number ≤ 1 then 5 else if number = 2 then 65 else 105)

theorem flows_lastMoment : lastMoment.Flows ⟨.ofMilliseconds 100, .ofMilliseconds 100⟩ := by
  constructor
  · intro number
    simp only [lastMoment, Duration.nanoseconds_ofMilliseconds]
    grind
  · rintro number ⟨first, _⟩ ⟨⟨hint, answered, busy⟩, _⟩
    have few : number ≤ 2 := Nat.le_of_not_lt fun many => by
      have none : lastMoment.answer number = .ok 0 :=
        congrArg Except.ok (if_neg (Nat.not_le_of_lt many))
      rw [none] at answered
      exact busy (Except.ok.inj answered).symm
    rcases (by omega : number = 1 ∨ number = 2) with rfl | rfl
    · decide
    · decide

theorem wait_ends_in_time_lastMoment :
    lastMoment.poll ⟨.ofMilliseconds 100, .ofMilliseconds 100⟩ "tablets" =
      .ok 3 ⟨3, [.ofMilliseconds 60, .ofMilliseconds 40]⟩ := by
  obtain ⟨ready, _, _, _, bounded, _⟩ := wait_ends_in_time flows_lastMoment "tablets"
  have ended : lastMoment.wait ⟨.ofMilliseconds 100, .ofMilliseconds 100⟩ "tablets" 101 =
      some (.ok 3 ⟨3, [.ofMilliseconds 60, .ofMilliseconds 40]⟩) := by
    refine (ready 101 3 _).mpr ⟨by decide, ⟨by decide, fun earlier first below => ?_⟩, rfl, ?_⟩
    · rcases (by omega : earlier = 1 ∨ earlier = 2) with rfl | rfl
      · exact ⟨⟨60, rfl, by decide⟩, by decide⟩
      · exact ⟨⟨60, rfl, by decide⟩, by decide⟩
    · decide
  obtain ⟨polled, _⟩ := bounded 100 (by decide) rfl
  exact Option.some.inj (polled.symm.trans ended)

end Script
end GuardedRows
