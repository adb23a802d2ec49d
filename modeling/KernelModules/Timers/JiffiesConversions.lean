import Mathlib.Algebra.Order.Ring.Int

/-!
# Uptime in jiffies

`jiffies` counts ticks modulo 2^64 and need not start at zero. `time_proc_show` subtracts the value of the time the
module was loaded; `time_callback` compares the two with `time_after`, by the sign of their difference.

- `uptime_toNat`, `timeAfter_iff`: the difference and the comparison are right across the wrap-around;
- `jiffiesToMsecs_toNat`: milliseconds are counted modulo 2^32;
- `jiffies_uptime`: all that is shown is right exactly while the milliseconds fit, and so do the seconds, which are
  computed from them.
-/

namespace KernelModules.Timers

/-! ## The kernel's conversions -/

/-- Ticks per second, a divisor of 1000. -/
structure Hz where
  hz : Nat
  divides : hz ∣ 1000

/-- `jiffies_to_msecs`: an `unsigned int`. -/
def jiffiesToMsecs (h : Hz) (j : UInt64) : UInt32 := (UInt64.ofNat (1000 / h.hz) * j).toUInt32

/-- `msecs_to_jiffies`, rounded up. -/
def msecsToJiffies (h : Hz) (m : Nat) : Nat := (m + 1000 / h.hz - 1) / (1000 / h.hz)

/-- `usecs_to_jiffies`, rounded up. -/
def usecsToJiffies (h : Hz) (u : Nat) : Nat := (u + 1000000 / h.hz - 1) / (1000000 / h.hz)

/-- `time_after(a, b)`: `(long)(b - a) < 0`. -/
def timeAfter (a b : UInt64) : Bool := (b - a).toInt64 < 0

/-- `time_before(a, b)`. -/
def timeBefore (a b : UInt64) : Bool := timeAfter b a

/-! ## The code -/

/-- `start_jiffies`, `start_ktime` and `timer_fires`. -/
structure TimeDemo where
  startJiffies : UInt64
  startKtime : Int64
  timerFires : Int32

/-- The values that `time_proc_show` prints, in its order. -/
structure TimeShow where
  hz : Nat
  timerResolution : Nat
  currentJiffies : UInt64
  startJiffies : UInt64
  uptimeJiffies : UInt64
  uptimeMs : UInt32
  uptimeSeconds : UInt32
  oneSecond : Nat
  hundredMs : Nat
  thousandUs : Nat
  ktimeNs : Int64
  ktimeMs : Int64
  timerFires : Int32
  futureAfterNow : Bool

def timeProcShow (h : Hz) (m : TimeDemo) (jiffies : UInt64) (ktime : Int64) : TimeShow :=
  let uptimeJiffies := jiffies - m.startJiffies
  let uptimeKtime := ktime - m.startKtime
  let future := jiffies + 100
  { hz := h.hz
    timerResolution := 1000 / h.hz
    currentJiffies := jiffies
    startJiffies := m.startJiffies
    uptimeJiffies := uptimeJiffies
    uptimeMs := jiffiesToMsecs h uptimeJiffies
    uptimeSeconds := jiffiesToMsecs h uptimeJiffies / 1000
    oneSecond := h.hz
    hundredMs := msecsToJiffies h 100
    thousandUs := usecsToJiffies h 1000
    ktimeNs := uptimeKtime
    ktimeMs := uptimeKtime / 1000000
    timerFires := m.timerFires
    futureAfterNow := timeAfter future jiffies }

/-- What `time_callback` prints, and when the timer fires next. -/
structure TimeFire where
  fire : Int32
  uptime : UInt64
  uptimeMs : UInt32
  /-- "More than 10 seconds since start". -/
  tenSeconds : Bool
  future : UInt64
  nowBeforeFuture : Bool
  expires : UInt64

/-- `time_callback`, which reads `jiffies` five times. -/
def timeCallback (h : Hz) (m : TimeDemo) (jiffies : Fin 5 → UInt64) : TimeDemo × TimeFire :=
  let uptime := jiffies 0 - m.startJiffies
  let futureTime := jiffies 1 + UInt64.ofNat (5 * h.hz)
  let timerFires := m.timerFires + 1
  ({ m with timerFires := timerFires },
    { fire := timerFires
      uptime := uptime
      uptimeMs := jiffiesToMsecs h uptime
      tenSeconds := timeAfter (jiffies 2) (m.startJiffies + UInt64.ofNat (10 * h.hz))
      future := futureTime
      nowBeforeFuture := timeBefore (jiffies 3) futureTime
      expires := jiffies 4 + UInt64.ofNat (2 * h.hz) })

/-- `jiffies` when `e` ticks have passed since the module was loaded. -/
def jiffiesAfter (m : TimeDemo) (e : Nat) : UInt64 := m.startJiffies + UInt64.ofNat e

/-! ## Differences and comparisons -/

theorem Hz.pos (h : Hz) : 0 < h.hz := Nat.pos_of_dvd_of_pos h.divides (by decide)

theorem Hz.le (h : Hz) : h.hz ≤ 1000 := Nat.le_of_dvd (by decide) h.divides

theorem uptime_toNat (m : TimeDemo) {e : Nat} (he : e < 2 ^ 64) : (jiffiesAfter m e - m.startJiffies).toNat = e := by
  have hs := m.startJiffies.toNat_lt
  rw [jiffiesAfter, UInt64.toNat_sub, UInt64.toNat_add, UInt64.toNat_ofNat']
  omega

/-- The sign of a 64-bit word. -/
theorem toInt64_neg_iff (x : UInt64) : x.toInt64 < 0 ↔ 2 ^ 63 ≤ x.toNat := by
  have hx := x.toNat_lt
  rw [Int64.lt_iff_toInt_lt]
  have hint : x.toInt64.toInt = x.toBitVec.toInt := rfl
  rw [hint, BitVec.toInt_eq_toNat_cond, UInt64.toNat_toBitVec]
  split <;> simp <;> omega

/-- **Comparison** of two times less than 2^63 ticks apart, wherever the count started. -/
theorem timeAfter_iff (s : UInt64) {a b : Nat} (hab : a ≤ b + 2 ^ 63) (hba : b < a + 2 ^ 63) :
    timeAfter (s + UInt64.ofNat a) (s + UInt64.ofNat b) = true ↔ b < a := by
  have hs := s.toNat_lt
  rw [timeAfter, decide_eq_true_iff, toInt64_neg_iff, UInt64.toNat_sub, UInt64.toNat_add, UInt64.toNat_add,
    UInt64.toNat_ofNat', UInt64.toNat_ofNat']
  omega

theorem tenSeconds_iff (h : Hz) (m : TimeDemo) {e : Nat} (he : e < 2 ^ 63) {jiffies : Fin 5 → UInt64}
    (hj : jiffies 2 = jiffiesAfter m e) : (timeCallback h m jiffies).2.tenSeconds = true ↔ e > 10 * h.hz := by
  have hle := h.le
  simp only [timeCallback, hj, jiffiesAfter]
  exact timeAfter_iff m.startJiffies (by omega) (by omega)

/-! ## Milliseconds and seconds -/

/-- Milliseconds are counted modulo 2^32. -/
theorem jiffiesToMsecs_toNat (h : Hz) (j : UInt64) : (jiffiesToMsecs h j).toNat = 1000 / h.hz * j.toNat % 2 ^ 32 := by
  have hle : 1000 / h.hz ≤ 1000 := Nat.div_le_self 1000 h.hz
  rw [jiffiesToMsecs, UInt64.toNat_toUInt32, UInt64.toNat_mul, UInt64.toNat_ofNat',
    Nat.mod_eq_of_lt (by omega : 1000 / h.hz < 2 ^ 64)]
  exact Nat.mod_mod_of_dvd _ (by decide)

/-- Whole milliseconds since `e` ticks: there is no remainder. -/
theorem msecs_eq (h : Hz) (e : Nat) : e * 1000 / h.hz = 1000 / h.hz * e := by
  obtain ⟨k, hk⟩ := h.divides
  rw [hk, Nat.mul_div_cancel_left k h.pos, Nat.mul_left_comm, Nat.mul_div_cancel_left _ h.pos, Nat.mul_comm]

theorem seconds_eq (h : Hz) (e : Nat) : e / h.hz = 1000 / h.hz * e / 1000 := by
  obtain ⟨k, hk⟩ := h.divides
  have hpos : 0 < k := by
    rcases Nat.eq_zero_or_pos k with rfl | hpos
    · cases hk
    · exact hpos
  have hquot : 1000 / h.hz = k := by rw [hk, Nat.mul_div_cancel_left k h.pos]
  calc e / h.hz = k * e / (k * h.hz) := (Nat.mul_div_mul_left e h.hz hpos).symm
    _ = 1000 / h.hz * e / 1000 := by rw [hquot, Nat.mul_comm k h.hz, ← hk]

/-- Reducing a number below a larger one lowers its thousands. -/
theorem mod_div_eq_iff (n : Nat) : n % 2 ^ 32 / 1000 = n / 1000 ↔ n < 2 ^ 32 := by
  omega

theorem uptimeMs_iff (h : Hz) (m : TimeDemo) {e : Nat} (he : e < 2 ^ 63) (ktime : Int64) :
    (timeProcShow h m (jiffiesAfter m e) ktime).uptimeMs.toNat = e * 1000 / h.hz ↔ e * 1000 / h.hz < 2 ^ 32 := by
  simp only [timeProcShow, jiffiesToMsecs_toNat, uptime_toNat m (by omega : e < 2 ^ 64), msecs_eq]
  omega

theorem uptimeSeconds_iff (h : Hz) (m : TimeDemo) {e : Nat} (he : e < 2 ^ 63) (ktime : Int64) :
    (timeProcShow h m (jiffiesAfter m e) ktime).uptimeSeconds.toNat = e / h.hz ↔ e * 1000 / h.hz < 2 ^ 32 := by
  rw [seconds_eq, msecs_eq]
  simp only [timeProcShow, UInt32.toNat_div, jiffiesToMsecs_toNat, uptime_toNat m (by omega : e < 2 ^ 64)]
  exact mod_div_eq_iff _

/-- **The uptime that is shown.** For every `HZ` that divides 1000, every start and every number `e < 2^63` of ticks
since then: `time_proc_show` prints `e` ticks, `e / HZ` seconds and `e * 1000 / HZ` milliseconds, and `time_callback`
prints its message exactly if `e > 10 * HZ`, exactly if the milliseconds are below 2^32. -/
theorem jiffies_uptime (h : Hz) (m : TimeDemo) (e : Nat) (he : e < 2 ^ 63) :
    ((∀ ktime, (timeProcShow h m (jiffiesAfter m e) ktime).uptimeJiffies.toNat = e ∧
        (timeProcShow h m (jiffiesAfter m e) ktime).uptimeSeconds.toNat = e / h.hz ∧
        (timeProcShow h m (jiffiesAfter m e) ktime).uptimeMs.toNat = e * 1000 / h.hz) ∧
      ∀ jiffies : Fin 5 → UInt64, jiffies 2 = jiffiesAfter m e →
        ((timeCallback h m jiffies).2.tenSeconds = true ↔ e > 10 * h.hz)) ↔
    e * 1000 / h.hz < 2 ^ 32 := by
  constructor
  · intro hall
    exact (uptimeMs_iff h m he 0).mp (hall.1 0).2.2
  · intro hfits
    refine ⟨fun ktime => ⟨uptime_toNat m (by omega), ?_, ?_⟩, fun jiffies hj => tenSeconds_iff h m he hj⟩
    · exact (uptimeSeconds_iff h m he ktime).mpr hfits
    · exact (uptimeMs_iff h m he ktime).mpr hfits

/-- 250 ticks per second. -/
def hz250 : Hz := ⟨250, by decide⟩

/-- Loaded one tick before the count wraps around. -/
def loadedLate : TimeDemo := ⟨0xFFFFFFFFFFFFFFFF, 0, 0⟩

/-- Three seconds later. -/
theorem jiffies_uptime_threeSeconds : (timeProcShow hz250 loadedLate (jiffiesAfter loadedLate 750) 0).uptimeMs.toNat =
    3000 :=
  (((jiffies_uptime hz250 loadedLate 750 (by decide)).mpr (by decide)).1 0).2.2

/-- After 2^30 ticks, 4294967 seconds or somewhat less than 50 days, the uptime is shown as 0. -/
theorem jiffies_uptime_wraps : 2 ^ 30 / hz250.hz = 4294967 ∧
    (timeProcShow hz250 loadedLate (jiffiesAfter loadedLate (2 ^ 30)) 0).uptimeMs.toNat = 0 ∧
    (timeProcShow hz250 loadedLate (jiffiesAfter loadedLate (2 ^ 30)) 0).uptimeSeconds.toNat = 0 := by
  have huptime := uptime_toNat loadedLate (e := 2 ^ 30) (by decide)
  refine ⟨by decide, ?_, ?_⟩
  · simp only [timeProcShow, jiffiesToMsecs_toNat, huptime]
    decide
  · simp only [timeProcShow, UInt32.toNat_div, jiffiesToMsecs_toNat, huptime]
    decide

end KernelModules.Timers
