import TrackerDemo.Config.Params
import Mathlib.Data.Rat.Floor

/-!
# The periodic sleep

Model of the end of a period (`trackerDemo.c`, lines 282–286 of `main` and
387–392 of `ReportToBroker_thread`): both threads take the time that has passed
from the microseconds of their rate and sleep for the rest.

* The `double` arithmetic is exact.
* `unsigned long` has `w` bits, `unsigned int` has 32. The conversion of a
  `double` is exact on `[0, 2^w)`; elsewhere C leaves it undefined, so it is a
  parameter.

Results:
* `sleepUsec_eq`: the argument of `usleep`, modulo `2^32`.
* `sleepCorrect_iff`: when the sleep ends the period, on every platform and with
  a saturating conversion.
-/

namespace TrackerDemo.Tracker

open TrackerDemo.Config

/-! ## Conversions to `unsigned long` -/

/-- A conversion of `double` to a `w` bit `unsigned long`. -/
structure UnsignedLongConversion (w : ℕ) where
  toFun : ℚ → ℕ
  lt : ∀ x, toFun x < 2 ^ w
  exact : ∀ x, 0 ≤ x → x < 2 ^ w → toFun x = ⌊x⌋.toNat

/-- The conversion of the target's instruction: out of range, the nearest value. -/
def saturatingConversion (w : ℕ) : UnsignedLongConversion w where
  toFun x := min (2 ^ w - 1) ⌊x⌋.toNat
  lt x := by
    have := Nat.two_pow_pos w
    omega
  exact x h0 h := by
    have hlt : ⌊x⌋ < 2 ^ w := Int.floor_lt.2 (by exact_mod_cast h)
    have hnonneg : 0 ≤ ⌊x⌋ := Int.floor_nonneg.2 h0
    zify [Nat.one_le_two_pow]
    omega

/-- The conversion that gives `d` for every value out of range. -/
def constantConversion (w d : ℕ) (hd : d < 2 ^ w) : UnsignedLongConversion w where
  toFun x := if 0 ≤ x ∧ x < 2 ^ w then ⌊x⌋.toNat else d
  lt x := by
    split_ifs with h
    · have hlt : ⌊x⌋ < 2 ^ w := Int.floor_lt.2 (by exact_mod_cast h.2)
      have hnonneg : 0 ≤ ⌊x⌋ := Int.floor_nonneg.2 h.1
      zify
      omega
    · exact hd
  exact x h0 h := if_pos ⟨h0, h⟩

/-! ## The two periods -/

/-- `struct timeval`, as `gettimeofday` fills it in. -/
structure Timeval where
  tvSec : ℤ
  tvUsec : ℤ

/-- `((endTime.tv_sec * 1e6) + endTime.tv_usec) -
    ((startTime.tv_sec * 1e6) + startTime.tv_usec)`. -/
def elapsedUsec (startTime endTime : Timeval) : ℤ :=
  (endTime.tvSec * 1000000 + endTime.tvUsec) - (startTime.tvSec * 1000000 + startTime.tvUsec)

/-- The argument of `usleep`: the microseconds of the rate minus `diffTime_usec`,
    as an `unsigned long`, cast to `unsigned int`. -/
def sleepUsec {w : ℕ} (conv : UnsignedLongConversion w) (rateSeconds : ℚ)
    (startTime endTime : Timeval) : ℕ :=
  let diffTimeUsec : ℤ := conv.toFun (elapsedUsec startTime endTime)
  let rate : ℤ := conv.toFun (1000000 * rateSeconds)
  ((rate - diffTimeUsec) % 2 ^ w % 2 ^ 32).toNat

/-- The threads that sleep at the end of a period. -/
inductive PeriodicThread
  | main | reportToBroker
  deriving DecidableEq, Repr

/-- The rate of a thread. -/
def PeriodicThread.rateSeconds (p : Params) : PeriodicThread → ℚ
  | .main => p.float .pwmUpdateRateSeconds
  | .reportToBroker => p.float .brokerReportRateSeconds

/-- The whole microseconds of a rate. -/
def rateUsec (rateSeconds : ℚ) : ℤ := ⌊1000000 * rateSeconds⌋

/-- The sleep ends the period: it lasts for the rest of the period, not at all
    after its end, and never for more than a period. -/
def SleepCorrect {w : ℕ} (conv : UnsignedLongConversion w) (rateSeconds : ℚ)
    (startTime endTime : Timeval) : Prop :=
  let elapsed := elapsedUsec startTime endTime
  let sleep : ℤ := sleepUsec conv rateSeconds startTime endTime
  (0 ≤ elapsed → elapsed ≤ rateUsec rateSeconds → sleep = rateUsec rateSeconds - elapsed) ∧
    (rateUsec rateSeconds ≤ elapsed → sleep = 0) ∧ sleep ≤ rateUsec rateSeconds

section

variable {w : ℕ} {rateSeconds : ℚ} {startTime endTime : Timeval}

/-- A whole number in range is converted exactly. -/
theorem UnsignedLongConversion.toFun_intCast (conv : UnsignedLongConversion w) {z : ℤ}
    (h0 : 0 ≤ z) (h : z < 2 ^ w) : (conv.toFun z : ℤ) = z := by
  rw [conv.exact z (by exact_mod_cast h0) (by exact_mod_cast h), Int.floor_intCast]
  exact Int.toNat_of_nonneg h0

/-- The microseconds of a rate are converted exactly. -/
theorem UnsignedLongConversion.toFun_rate (conv : UnsignedLongConversion w) (hw : 32 ≤ w)
    (hrate : 0 ≤ rateSeconds) (hfits : rateUsec rateSeconds < 2 ^ 32) :
    (conv.toFun (1000000 * rateSeconds) : ℤ) = rateUsec rateSeconds := by
  have hnonneg : (0 : ℚ) ≤ 1000000 * rateSeconds := by positivity
  have hlt : 1000000 * rateSeconds < (2 ^ 32 : ℚ) := by exact_mod_cast Int.floor_lt.1 hfits
  have hle : (2 ^ 32 : ℚ) ≤ 2 ^ w := by gcongr; norm_num
  rw [conv.exact _ hnonneg (hlt.trans_le hle)]
  exact Int.toNat_of_nonneg (Int.floor_nonneg.2 hnonneg)

/-- The two reductions leave the difference modulo `2^32`. -/
theorem sleepUsec_eq (conv : UnsignedLongConversion w) (hw : 32 ≤ w) (hrate : 0 ≤ rateSeconds)
    (hfits : rateUsec rateSeconds < 2 ^ 32) :
    (sleepUsec conv rateSeconds startTime endTime : ℤ) =
      (rateUsec rateSeconds - conv.toFun (elapsedUsec startTime endTime)) % 2 ^ 32 := by
  show ((((conv.toFun (1000000 * rateSeconds) : ℤ) -
    conv.toFun (elapsedUsec startTime endTime)) % 2 ^ w % 2 ^ 32).toNat : ℤ) = _
  rw [conv.toFun_rate hw hrate hfits, Int.emod_emod_of_dvd _ (pow_dvd_pow 2 hw)]
  exact Int.toNat_of_nonneg (Int.emod_nonneg _ (by norm_num))

/-- With the elapsed time in range, the sleep is correct up to the end of the
    period, and when the overrun is a multiple of `2^32` microseconds. -/
theorem sleepCorrect_iff_of_inRange (conv : UnsignedLongConversion w) (hw : 32 ≤ w)
    (hrate : 0 ≤ rateSeconds) (hfits : rateUsec rateSeconds < 2 ^ 32)
    (h0 : 0 ≤ elapsedUsec startTime endTime) (h : elapsedUsec startTime endTime < 2 ^ w) :
    SleepCorrect conv rateSeconds startTime endTime ↔
      elapsedUsec startTime endTime ≤ rateUsec rateSeconds ∨
        2 ^ 32 ∣ elapsedUsec startTime endTime - rateUsec rateSeconds := by
  unfold SleepCorrect
  simp only [sleepUsec_eq conv hw hrate hfits, conv.toFun_intCast h0 h]
  have hpos : 0 ≤ rateUsec rateSeconds := Int.floor_nonneg.2 (by positivity)
  omega

/-- With the elapsed time out of range, the sleep is what the conversion makes
    of it. -/
theorem sleepCorrect_iff_of_outOfRange (conv : UnsignedLongConversion w) (hw : 32 ≤ w)
    (hrate : 0 ≤ rateSeconds) (hfits : rateUsec rateSeconds < 2 ^ 32)
    (h : elapsedUsec startTime endTime < 0 ∨ 2 ^ w ≤ elapsedUsec startTime endTime) :
    SleepCorrect conv rateSeconds startTime endTime ↔
      if elapsedUsec startTime endTime < 0 then
        (rateUsec rateSeconds - conv.toFun (elapsedUsec startTime endTime)) % 2 ^ 32 ≤
          rateUsec rateSeconds
      else (rateUsec rateSeconds - conv.toFun (elapsedUsec startTime endTime)) % 2 ^ 32 = 0 := by
  unfold SleepCorrect
  simp only [sleepUsec_eq conv hw hrate hfits]
  have hpos : 0 ≤ rateUsec rateSeconds := Int.floor_nonneg.2 (by positivity)
  have hle : (2 ^ 32 : ℤ) ≤ 2 ^ w := by gcongr; norm_num
  split_ifs with hneg
  · omega
  · omega

/-- What the conversion of the target makes of an elapsed time out of range. -/
theorem toFun_saturatingConversion (hw : 32 ≤ w) {z : ℤ} (h : z < 0 ∨ 2 ^ w ≤ z) :
    ((saturatingConversion w).toFun z : ℤ) = if z < 0 then 0 else 2 ^ w - 1 := by
  have hle : (2 ^ 32 : ℤ) ≤ 2 ^ w := by gcongr; norm_num
  show ((min (2 ^ w - 1) ⌊(z : ℚ)⌋.toNat : ℕ) : ℤ) = _
  rw [Int.floor_intCast]
  zify [Nat.one_le_two_pow]
  split_ifs <;> omega

theorem toFun_constantConversion {d : ℕ} (hd : d < 2 ^ w) {z : ℤ} (h : z < 0 ∨ 2 ^ w ≤ z) :
    (constantConversion w d hd).toFun z = d := by
  refine if_neg fun hrange => ?_
  have h0 : 0 ≤ z := by exact_mod_cast hrange.1
  have hlt : z < 2 ^ w := by exact_mod_cast hrange.2
  omega

/-- Out of range the conversion may give anything: only the sleep of the largest
    rate is then correct on every platform, when the clock was stepped back. -/
theorem sleepCorrect_forall_iff_of_outOfRange (hw : 32 ≤ w) (hrate : 0 ≤ rateSeconds)
    (hfits : rateUsec rateSeconds < 2 ^ 32)
    (hout : elapsedUsec startTime endTime < 0 ∨ 2 ^ w ≤ elapsedUsec startTime endTime) :
    (∀ conv : UnsignedLongConversion w, SleepCorrect conv rateSeconds startTime endTime) ↔
      elapsedUsec startTime endTime < 0 ∧ rateUsec rateSeconds = 2 ^ 32 - 1 := by
  have hpos : 0 ≤ rateUsec rateSeconds := Int.floor_nonneg.2 (by positivity)
  have hle : (2 ^ 32 : ℤ) ≤ 2 ^ w := by gcongr; norm_num
  have hiff := fun conv : UnsignedLongConversion w =>
    sleepCorrect_iff_of_outOfRange conv hw hrate hfits hout
  constructor
  · intro h
    have hall (d : ℕ) (hd : d < 2 ^ w) := (hiff _).1 (h (constantConversion w d hd))
    simp only [toFun_constantConversion _ hout] at hall
    obtain hneg | hbig := hout
    · refine ⟨hneg, ?_⟩
      by_contra hne
      -- converted to one more than the rate, the time wraps the difference
      have hlt : (rateUsec rateSeconds + 1).toNat < 2 ^ w := by
        zify
        omega
      have hwrap := hall _ hlt
      rw [if_pos hneg] at hwrap
      omega
    · -- converted to 0 and to 1, the time cannot give the same difference
      have h0 := hall 0 (by positivity)
      have h1 := hall 1 (Nat.one_lt_two_pow (by omega))
      rw [if_neg (by omega)] at h0 h1
      omega
  · rintro ⟨hneg, hmax⟩ conv
    rw [hiff, if_pos hneg, hmax]
    omega

/-- The condition on every platform. -/
theorem sleepCorrect_forall_iff (hw : 32 ≤ w) (hrate : 0 ≤ rateSeconds)
    (hfits : rateUsec rateSeconds < 2 ^ 32) :
    (∀ conv : UnsignedLongConversion w, SleepCorrect conv rateSeconds startTime endTime) ↔
      (0 ≤ elapsedUsec startTime endTime ∧ elapsedUsec startTime endTime < 2 ^ w ∧
        (elapsedUsec startTime endTime ≤ rateUsec rateSeconds ∨
          2 ^ 32 ∣ elapsedUsec startTime endTime - rateUsec rateSeconds)) ∨
      (elapsedUsec startTime endTime < 0 ∧ rateUsec rateSeconds = 2 ^ 32 - 1) := by
  by_cases hrange : 0 ≤ elapsedUsec startTime endTime ∧ elapsedUsec startTime endTime < 2 ^ w
  · obtain ⟨h0, hlt⟩ := hrange
    have hiff := fun conv : UnsignedLongConversion w =>
      sleepCorrect_iff_of_inRange conv hw hrate hfits h0 hlt
    constructor
    · intro h
      exact Or.inl ⟨h0, hlt, (hiff _).1 (h (saturatingConversion w))⟩
    · rintro (⟨-, -, h⟩ | ⟨hneg, -⟩) conv
      · exact (hiff conv).2 h
      · omega
  · rw [sleepCorrect_forall_iff_of_outOfRange hw hrate hfits (by omega)]
    omega

/-- The condition on the target. -/
theorem sleepCorrect_saturatingConversion_iff (hw : w = 32 ∨ w = 64) (hrate : 0 ≤ rateSeconds)
    (hfits : rateUsec rateSeconds < 2 ^ 32) :
    SleepCorrect (saturatingConversion w) rateSeconds startTime endTime ↔
      elapsedUsec startTime endTime ≤ rateUsec rateSeconds ∨
      (elapsedUsec startTime endTime < 2 ^ w ∧
        2 ^ 32 ∣ elapsedUsec startTime endTime - rateUsec rateSeconds) ∨
      (2 ^ w ≤ elapsedUsec startTime endTime ∧ rateUsec rateSeconds = 2 ^ 32 - 1) := by
  have hw32 : 32 ≤ w := by omega
  have hpos : 0 ≤ rateUsec rateSeconds := Int.floor_nonneg.2 (by positivity)
  have hle : (2 ^ 32 : ℤ) ≤ 2 ^ w := by gcongr; norm_num
  by_cases hrange : 0 ≤ elapsedUsec startTime endTime ∧ elapsedUsec startTime endTime < 2 ^ w
  · rw [sleepCorrect_iff_of_inRange _ hw32 hrate hfits hrange.1 hrange.2]
    omega
  · have hout : elapsedUsec startTime endTime < 0 ∨ 2 ^ w ≤ elapsedUsec startTime endTime := by
      omega
    rw [sleepCorrect_iff_of_outOfRange _ hw32 hrate hfits hout,
      toFun_saturatingConversion hw32 hout]
    obtain rfl | rfl := hw <;> split_ifs <;> omega

/-- **The periodic sleep.** On every platform the sleep ends the period exactly
    when the elapsed time is not longer than the period, or overruns it by a
    multiple of `2^32` microseconds; with the saturating conversion of the
    target, also when the clock was stepped back. -/
theorem sleepCorrect_iff (p : Params) (thread : PeriodicThread) (startTime endTime : Timeval)
    (w : ℕ) (hw : w = 32 ∨ w = 64) (hrate : 0 ≤ thread.rateSeconds p)
    (hfits : rateUsec (thread.rateSeconds p) < 2 ^ 32) :
    ((∀ conv : UnsignedLongConversion w,
        SleepCorrect conv (thread.rateSeconds p) startTime endTime) ↔
      (0 ≤ elapsedUsec startTime endTime ∧ elapsedUsec startTime endTime < 2 ^ w ∧
        (elapsedUsec startTime endTime ≤ rateUsec (thread.rateSeconds p) ∨
          2 ^ 32 ∣ elapsedUsec startTime endTime - rateUsec (thread.rateSeconds p))) ∨
      (elapsedUsec startTime endTime < 0 ∧ rateUsec (thread.rateSeconds p) = 2 ^ 32 - 1)) ∧
    (SleepCorrect (saturatingConversion w) (thread.rateSeconds p) startTime endTime ↔
      elapsedUsec startTime endTime ≤ rateUsec (thread.rateSeconds p) ∨
      (elapsedUsec startTime endTime < 2 ^ w ∧
        2 ^ 32 ∣ elapsedUsec startTime endTime - rateUsec (thread.rateSeconds p)) ∨
      (2 ^ w ≤ elapsedUsec startTime endTime ∧
        rateUsec (thread.rateSeconds p) = 2 ^ 32 - 1)) := by
  exact ⟨sleepCorrect_forall_iff (by omega) hrate hfits,
    sleepCorrect_saturatingConversion_iff hw hrate hfits⟩

end

/-- Parameters with all rates 0.3 seconds. -/
def sleepParams : Params := { Params.initial with float := fun _ => 3 / 10 }

theorem rateUsec_sleepParams (thread : PeriodicThread) :
    rateUsec (thread.rateSeconds sleepParams) = 300000 := by
  cases thread <;> decide +kernel

/-- An iteration of 0.1 seconds sleeps correctly on the target. -/
theorem sleepCorrect_iff_sample :
    SleepCorrect (saturatingConversion 32) (PeriodicThread.main.rateSeconds sleepParams)
      ⟨1000, 0⟩ ⟨1000, 100000⟩ := by
  have hrate := rateUsec_sleepParams .main
  refine (sleepCorrect_iff sleepParams .main ⟨1000, 0⟩ ⟨1000, 100000⟩ 32 (Or.inl rfl)
    (by decide +kernel) (by rw [hrate]; norm_num)).2.2 (Or.inl ?_)
  rw [hrate]
  decide

/-- An iteration of 0.4 seconds does not: it sleeps for over an hour. -/
theorem slowIteration_not_correct :
    ¬∀ (p : Params) (thread : PeriodicThread) (startTime endTime : Timeval) (w : ℕ)
      (conv : UnsignedLongConversion w), w = 32 ∨ w = 64 → 0 ≤ thread.rateSeconds p →
      rateUsec (thread.rateSeconds p) < 2 ^ 32 →
      SleepCorrect conv (thread.rateSeconds p) startTime endTime := by
  intro h
  have hrate := rateUsec_sleepParams .main
  have hnonneg : 0 ≤ PeriodicThread.main.rateSeconds sleepParams := by decide +kernel
  have hfits : rateUsec (PeriodicThread.main.rateSeconds sleepParams) < 2 ^ 32 := by
    rw [hrate]
    norm_num
  obtain ⟨-, hzero, -⟩ := h sleepParams .main ⟨1000, 0⟩ ⟨1000, 400000⟩ 32
    (saturatingConversion 32) (Or.inl rfl) hnonneg hfits
  have hsleep : (sleepUsec (saturatingConversion 32)
      (PeriodicThread.main.rateSeconds sleepParams) ⟨1000, 0⟩ ⟨1000, 400000⟩ : ℤ) = 4294867296 := by
    rw [sleepUsec_eq _ le_rfl hnonneg hfits, hrate]
    decide +kernel
  rw [hsleep] at hzero
  exact absurd (hzero (by rw [hrate]; decide)) (by decide)

end TrackerDemo.Tracker
