import Mathlib.Algebra.Group.Int.Defs
import Mathlib.Algebra.Group.Nat.Defs
import Libael.EPoll.EPoll

/-!
# Libael.Timer

How a timer is armed: `ExecuteOnceIn`, `ExecuteInterval` and `ExecuteIntervalIn`
(`include/event_loop.h`), `TimerHandler::Create` (`lib/event_loop.cc`) and
`Handle::CreateTimerHandle` (`lib/handle.cc`). **A duration is converted to a signed 64-bit
number of nanoseconds, modulo `2 ^ 64`**, split into seconds and nanoseconds, and handed to
`timerfd_settime`. So the timer is the requested one if the number of nanoseconds fits.
-/

namespace Libael

/-! ### Durations -/

/-- A signed 64-bit result. -/
def wrap (n : Int) : Int := (n + 2 ^ 63) % 2 ^ 64 - 2 ^ 63

/-- The number is a signed 64-bit one. -/
def Fits (n : Int) : Prop := -2 ^ 63 ≤ n ∧ n < 2 ^ 63

instance (n : Int) : Decidable (Fits n) := inferInstanceAs (Decidable (_ ∧ _))

theorem wrap_eq_self_iff (n : Int) : wrap n = n ↔ Fits n := by
  unfold Fits wrap
  omega

/-- `std::chrono::duration` with a signed 64-bit tick count, and a period of so many
nanoseconds. -/
structure Duration where
  count : Int
  period : Nat
  inRange : Fits count
  positive : 0 < period

namespace Duration

/-- The number of nanoseconds. -/
def exact (d : Duration) : Int := d.count * d.period

/-- `std::chrono::nanoseconds(d)`, `count()` of it -/
def nanoseconds (d : Duration) : Int := wrap d.exact

end Duration

/-! ### The timer descriptor -/

/-- `timespec` -/
structure TimeSpec where
  tvSec : Int
  tvNsec : Int
  deriving DecidableEq

namespace TimeSpec

/-- What `timerfd_settime` accepts. -/
def WellFormed (ts : TimeSpec) : Prop := 0 ≤ ts.tvSec ∧ 0 ≤ ts.tvNsec ∧ ts.tvNsec < 10 ^ 9

instance (ts : TimeSpec) : Decidable ts.WellFormed := inferInstanceAs (Decidable (_ ∧ _))

/-- The number of nanoseconds it denotes. -/
def exact (ts : TimeSpec) : Int := ts.tvSec * 10 ^ 9 + ts.tvNsec

end TimeSpec

/-- `itimerspec` -/
structure ITimerSpec where
  itInterval : TimeSpec
  itValue : TimeSpec
  deriving DecidableEq

/-- What `timerfd_settime` accepts: the nanoseconds are less than a second, and nothing is
negative. -/
def ITimerSpec.WellFormed (its : ITimerSpec) : Prop :=
  its.itInterval.WellFormed ∧ its.itValue.WellFormed

instance (its : ITimerSpec) : Decidable its.WellFormed := inferInstanceAs (Decidable (_ ∧ _))

/-- What the creation of a descriptor shows. -/
inductive FdObs
  /-- a system call has returned a new descriptor -/
  | obtained (fd : Fd)
  /-- `timerfd_settime` -/
  | settime (its : ITimerSpec)
  /-- `close` -/
  | closed (fd : Fd)
  /-- `HandleNewConnection` -/
  | handedOver (fd : Fd)
  deriving DecidableEq

/-- What the system calls of `CreateTimerHandle` return. -/
structure TimerCalls where
  timerfdCreate : Except Errno Fd
  timerfdSettime : Option Errno

/-- `timerfd_settime` fails with `EINVAL` on a time that is not well formed. -/
def TimerCalls.Contract (calls : TimerCalls) (o : List FdObs) : Prop :=
  ∀ its, .settime its ∈ o → ¬its.WellFormed → calls.timerfdSettime ≠ none

namespace Handle

/-- `ToTimeSpec` -/
def toTimeSpec (tm : Int) : TimeSpec :=
  let seconds := tm.tdiv (10 ^ 9)
  let nanoseconds := tm - seconds * 10 ^ 9
  { tvSec := seconds, tvNsec := nanoseconds }

/-- The `itimerspec` that `CreateTimerHandle` fills in. -/
def iTimerSpec (interval value : Int) : ITimerSpec :=
  let its : ITimerSpec := { itInterval := toTimeSpec interval, itValue := toTimeSpec value }
  if its.itValue.tvNsec = 0 ∧ its.itValue.tvSec = 0 then
    -- start as soon as possible
    { its with itValue := { its.itValue with tvNsec := 1 } }
  else its

/-- `Handle::CreateTimerHandle` -/
def createTimerHandle (calls : TimerCalls) (interval value : Int) :
    Except Exception Fd × List FdObs :=
  match calls.timerfdCreate with
  | .error e => (.error (.systemError e "timerfd_create - failed"), [])
  | .ok fd =>
    if interval = 0 ∧ value = 0 then
      (.error (.text "invalid interval values (both zero nanoseconds)"), [.obtained fd])
    else
      let its := iTimerSpec interval value
      match calls.timerfdSettime with
      | some e =>
        (.error (.systemError e "timerfd_settime - failed"),
          [.obtained fd, .settime its, .closed fd])
      | none => (.ok fd, [.obtained fd, .settime its])

end Handle

/-- `TimerHandler`, as far as its construction determines it. -/
structure TimerHandler where
  handle : Fd
  runOnce : Bool

/-- `TimerHandler::Create` -/
def TimerHandler.create (calls : TimerCalls) (interval executeIn : Int) :
    Except Exception TimerHandler × List FdObs :=
  let (handle, o) := Handle.createTimerHandle calls interval executeIn
  (handle.map fun handle => { handle, runOnce := interval == 0 }, o)

/-- The calls that create a timer. -/
inductive TimerRequest
  | executeOnceIn (executeIn : Duration)
  | executeInterval (interval : Duration)
  | executeIntervalIn (interval executeIn : Duration)

namespace TimerRequest

/-- The interval asked for, in nanoseconds. -/
def interval : TimerRequest → Int
  | .executeOnceIn _ => 0
  | .executeInterval interval | .executeIntervalIn interval _ => interval.exact

/-- The initial delay asked for, in nanoseconds. -/
def delay : TimerRequest → Int
  | .executeOnceIn executeIn | .executeIntervalIn _ executeIn => executeIn.exact
  | .executeInterval _ => 0

/-- `ExecuteOnceIn`, `ExecuteInterval` and `ExecuteIntervalIn`, up to `AttachInternal`. -/
def create (calls : TimerCalls) : TimerRequest → Except Exception TimerHandler × List FdObs
  | .executeOnceIn executeIn => TimerHandler.create calls 0 executeIn.nanoseconds
  | .executeInterval interval => TimerHandler.create calls interval.nanoseconds 0
  | .executeIntervalIn interval executeIn =>
    TimerHandler.create calls interval.nanoseconds executeIn.nanoseconds

theorem create_eq (calls : TimerCalls) (r : TimerRequest) :
    r.create calls = TimerHandler.create calls (wrap r.interval) (wrap r.delay) := by
  cases r with
  | executeOnceIn executeIn => rfl
  | executeInterval interval => rfl
  | executeIntervalIn interval executeIn => rfl

/-- The timer is really armed, and is the one asked for. -/
structure Armed (r : TimerRequest) (handler : TimerHandler) (its : ITimerSpec) : Prop where
  wellFormed : its.WellFormed
  nonzero : its.itValue.exact ≠ 0
  interval : its.itInterval.exact = r.interval
  delay : its.itValue.exact = if r.delay = 0 then 1 else r.delay
  runOnce : handler.runOnce = true ↔ r.interval = 0

/-- The call throws, or arms the timer that was asked for. -/
def ArmsExactly (r : TimerRequest) (calls : TimerCalls) : Prop :=
  match r.create calls with
  | (.error _, _) => True
  | (.ok handler, o) => ∃ its, .settime its ∈ o ∧ r.Armed handler its

/-- What that depends on: the requested numbers of nanoseconds are signed 64-bit ones, or a
call fails, as `timerfd_settime` does if one of them comes out negative, or both of them come
out as zero. -/
def Representable (r : TimerRequest) (calls : TimerCalls) : Prop :=
  Fits r.interval ∧ Fits r.delay ∨ wrap r.interval < 0 ∨ wrap r.delay < 0 ∨
    wrap r.interval = 0 ∧ wrap r.delay = 0 ∨ calls.timerfdCreate.isOk = false ∨
    calls.timerfdSettime ≠ none

end TimerRequest

/-! ### Splitting a number of nanoseconds -/

namespace Handle

@[simp] theorem toTimeSpec_exact (tm : Int) : (toTimeSpec tm).exact = tm := by
  simp only [toTimeSpec, TimeSpec.exact]
  omega

/-- `duration_cast` and the remainder truncate towards zero, so no number that is negative is
well formed. -/
theorem toTimeSpec_wellFormed_iff (tm : Int) : (toTimeSpec tm).WellFormed ↔ 0 ≤ tm := by
  constructor
  · rintro ⟨hsec, hnsec, -⟩
    have hexact := toTimeSpec_exact tm
    unfold TimeSpec.exact at hexact
    omega
  · intro hnonneg
    simp only [TimeSpec.WellFormed, toTimeSpec, Int.tdiv_eq_ediv_of_nonneg hnonneg]
    omega

/-- Only 0 is split into zeros. -/
theorem toTimeSpec_eq_zero_iff {tm : Int} :
    (toTimeSpec tm).tvNsec = 0 ∧ (toTimeSpec tm).tvSec = 0 ↔ tm = 0 := by
  constructor
  · rintro ⟨hnsec, hsec⟩
    have hexact := toTimeSpec_exact tm
    unfold TimeSpec.exact at hexact
    omega
  · rintro rfl
    exact ⟨rfl, rfl⟩

/-- What `timerfd_settime` is asked for: the interval and the delay, one nanosecond for none. -/
theorem iTimerSpec_exact (interval value : Int) :
    (iTimerSpec interval value).itInterval.exact = interval ∧
      (iTimerSpec interval value).itValue.exact = if value = 0 then 1 else value := by
  unfold iTimerSpec
  dsimp only
  by_cases hzero : value = 0
  · subst hzero
    rw [if_pos (toTimeSpec_eq_zero_iff.mpr rfl), if_pos rfl]
    exact ⟨toTimeSpec_exact interval, rfl⟩
  · rw [if_neg (fun h => hzero (toTimeSpec_eq_zero_iff.mp h)), if_neg hzero]
    exact ⟨toTimeSpec_exact interval, toTimeSpec_exact value⟩

/-- The split numbers are accepted exactly if the numbers are not negative. -/
theorem iTimerSpec_wellFormed_iff (interval value : Int) :
    (iTimerSpec interval value).WellFormed ↔ 0 ≤ interval ∧ 0 ≤ value := by
  unfold iTimerSpec ITimerSpec.WellFormed
  dsimp only
  by_cases hzero : value = 0
  · subst hzero
    rw [if_pos (toTimeSpec_eq_zero_iff.mpr rfl)]
    dsimp only
    rw [toTimeSpec_wellFormed_iff]
    exact and_congr_right fun _ => iff_of_true (by decide) (Int.le_refl 0)
  · rw [if_neg (fun h => hzero (toTimeSpec_eq_zero_iff.mp h)), toTimeSpec_wellFormed_iff,
      toTimeSpec_wellFormed_iff]

end Handle

namespace TimerRequest

/-- How the creation of a timer ends. -/
inductive Created (r : TimerRequest) (calls : TimerCalls) :
    Except Exception TimerHandler × List FdObs → Prop
  | refused {e} : calls.timerfdCreate = .error e →
      Created r calls (.error (.systemError e "timerfd_create - failed"), [])
  | zero {fd} : calls.timerfdCreate = .ok fd → wrap r.interval = 0 → wrap r.delay = 0 →
      Created r calls
        (.error (.text "invalid interval values (both zero nanoseconds)"), [.obtained fd])
  | invalid {fd e} : calls.timerfdCreate = .ok fd → calls.timerfdSettime = some e →
      Created r calls (.error (.systemError e "timerfd_settime - failed"),
        [.obtained fd, .settime (Handle.iTimerSpec (wrap r.interval) (wrap r.delay)), .closed fd])
  | armed {fd} : calls.timerfdCreate = .ok fd → calls.timerfdSettime = none →
      ¬(wrap r.interval = 0 ∧ wrap r.delay = 0) →
      Created r calls (.ok { handle := fd, runOnce := wrap r.interval == 0 },
        [.obtained fd, .settime (Handle.iTimerSpec (wrap r.interval) (wrap r.delay))])

/-- What becomes of a request. -/
theorem created (r : TimerRequest) (calls : TimerCalls) : r.Created calls (r.create calls) := by
  rw [create_eq]
  unfold TimerHandler.create Handle.createTimerHandle
  cases hcreate : calls.timerfdCreate with
  | error e => exact .refused hcreate
  | ok fd =>
      dsimp only
      split
      · rename_i hzero
        exact .zero hcreate hzero.1 hzero.2
      · rename_i hnonzero
        cases hsettime : calls.timerfdSettime with
        | some e => exact .invalid hcreate hsettime
        | none => exact .armed hcreate hsettime hnonzero

/-- **Timer arming is exact** if and only if the numbers of nanoseconds are representable:
the call throws, or `timerfd_settime` is given a well-formed time that arms the timer with
exactly the interval and the delay asked for. -/
theorem armsExactly_iff (r : TimerRequest) (calls : TimerCalls)
    (hkernel : calls.Contract (r.create calls).2) : r.ArmsExactly calls ↔
      r.Representable calls := by
  unfold ArmsExactly Representable
  generalize hcreated : r.create calls = res at hkernel ⊢
  have hends := r.created calls
  rw [hcreated] at hends
  cases hends with
  | refused hcreate =>
      exact iff_of_true trivial (.inr (.inr (.inr (.inr (.inl (by rw [hcreate]; rfl))))))
  | zero _ hinterval hdelay =>
      exact iff_of_true trivial (.inr (.inr (.inr (.inl ⟨hinterval, hdelay⟩))))
  | invalid _ hsettime =>
      exact iff_of_true trivial (.inr (.inr (.inr (.inr (.inr (by rw [hsettime]; simp))))))
  | @armed fd hcreate hsettime hnonzero =>
      obtain ⟨hinterval, hdelay⟩ := Handle.iTimerSpec_exact (wrap r.interval) (wrap r.delay)
      -- the kernel has accepted the time, so it is well formed
      have hwell : (Handle.iTimerSpec (wrap r.interval) (wrap r.delay)).WellFormed := by
        by_contra hill
        exact hkernel _ (by simp) hill hsettime
      have hnonneg := (Handle.iTimerSpec_wellFormed_iff _ _).mp hwell
      constructor
      · rintro ⟨its, hmem, harmed⟩
        obtain rfl : its = Handle.iTimerSpec (wrap r.interval) (wrap r.delay) := by
          simpa using hmem
        have hsame := hinterval.symm.trans harmed.interval
        have hsame' := hdelay.symm.trans harmed.delay
        refine .inl ⟨(wrap_eq_self_iff _).mp hsame, (wrap_eq_self_iff _).mp ?_⟩
        unfold wrap at *
        split at hsame' <;> split at hsame' <;> omega
      · intro hrep
        have hfits : Fits r.interval ∧ Fits r.delay := by
          rcases hrep with hfits | hneg | hneg | hzero | hno | hno
          · exact hfits
          · omega
          · omega
          · exact absurd hzero hnonzero
          · rw [hcreate] at hno
            exact absurd hno (by simp [Except.isOk, Except.toBool])
          · exact absurd hsettime hno
        rw [(wrap_eq_self_iff _).mpr hfits.1, (wrap_eq_self_iff _).mpr hfits.2] at *
        refine ⟨_, List.mem_cons_of_mem _ (List.mem_singleton_self _), hwell, ?_, hinterval,
          hdelay, ?_⟩
        · rw [hdelay]
          split <;> omega
        · exact beq_iff_eq

/-- Both system calls succeed. -/
def succeed : TimerCalls := { timerfdCreate := .ok 5, timerfdSettime := none }

/-- An interval of a second and a half, to start at once. -/
def everySecondAndHalf : TimerRequest :=
  .executeInterval { count := 1500, period := 10 ^ 6, inRange := by decide, positive := by decide }

theorem armsExactly_everySecondAndHalf : everySecondAndHalf.ArmsExactly succeed := by
  refine (armsExactly_iff everySecondAndHalf succeed ?_).mpr (.inl (by decide))
  intro its hmem hill
  obtain rfl : its = Handle.iTimerSpec 1500000000 0 := by
    simpa [everySecondAndHalf, create, TimerHandler.create, Handle.createTimerHandle, succeed,
      Duration.nanoseconds, Duration.exact, wrap] using hmem
  exact absurd (by decide) hill

/-- More than a billion years, in seconds. -/
def longDelay : Duration :=
  { count := 2 ^ 55 + 1, period := 10 ^ 9, inRange := by decide, positive := by decide }

/-- The timer goes off after one second. -/
theorem longDelay_not_exact :
    (executeOnceIn longDelay).create succeed = (.ok { handle := 5, runOnce := true },
      [.obtained 5, .settime { itInterval := ⟨0, 0⟩, itValue := ⟨1, 0⟩ }]) ∧
    succeed.Contract ((executeOnceIn longDelay).create succeed).2 ∧
    ¬(executeOnceIn longDelay).ArmsExactly succeed := by
  have hcreate : (executeOnceIn longDelay).create succeed = (.ok { handle := 5, runOnce := true },
      [.obtained 5, .settime { itInterval := ⟨0, 0⟩, itValue := ⟨1, 0⟩ }]) := by
    simp [create, TimerHandler.create, Handle.createTimerHandle, Handle.iTimerSpec,
      Handle.toTimeSpec, succeed, longDelay, Duration.nanoseconds, Duration.exact, wrap, Except.map]
  refine ⟨hcreate, ?_, ?_⟩
  · intro its hmem hill
    rw [hcreate] at hmem
    obtain rfl : its = { itInterval := ⟨0, 0⟩, itValue := ⟨1, 0⟩ } := by simpa using hmem
    exact absurd (by decide) hill
  · unfold ArmsExactly
    rw [hcreate]
    rintro ⟨its, hmem, harmed⟩
    obtain rfl : its = { itInterval := ⟨0, 0⟩, itValue := ⟨1, 0⟩ } := by simpa using hmem
    exact absurd harmed.delay (by decide)

end TimerRequest

end Libael
