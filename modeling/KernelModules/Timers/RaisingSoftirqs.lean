import Mathlib.Algebra.BigOperators.Fin
import Mathlib.Algebra.Order.BigOperators.Group.Finset
import KernelModules.Lib.Runs

/-!
# Softirq statistics

`raise_softirq_timer` counts each firing twice, in `count` and in the counter of the CPU it fires on;
`softirq_proc_show` prints the first and lists the others for the CPUs that are online at that moment. CPUs come and
go between firings.

- `run_counts`: after any run each counter is the number of its firings, as an `int`;
- `listed_eq_total_iff`: when numbers that wrap around add up;
- `softirq_statistics`: what is listed adds up to the total exactly if the CPUs that are offline have raised a
  multiple of 2^32 softirqs and the sum of the list is an `int`; below 2^31 firings, exactly if no CPU that has raised
  one is offline.
-/

namespace KernelModules.Timers

open Lib

variable {n : Nat}

/-! ## The code -/

inductive Softirq
  | netRx
  | tasklet
  | timer
deriving DecidableEq, Repr

/-- `count`, `softirq_cpu_count`, and which CPUs are online. -/
structure Softirqs (n : Nat) where
  count : Int32
  softirqCpuCount : Fin n → Int32
  online : Fin n → Bool

/-- The `switch` of `raise_softirq_timer`; a negative count matches no case but 0. -/
def raisedBy (count : Int32) : Option Softirq :=
  if count % 3 = 0 then some .netRx
  else if count % 3 = 1 then some .tasklet
  else if count % 3 = 2 then some .timer
  else none

/-- `raise_softirq_timer` on a CPU: the new state and the softirq that is raised. -/
def raiseSoftirqTimer (s : Softirqs n) (cpu : Fin n) : Softirqs n × Option Softirq :=
  let count := s.count + 1
  ({ s with
      count := count
      softirqCpuCount := Function.update s.softirqCpuCount cpu (s.softirqCpuCount cpu + 1) }, raisedBy count)

/-- What `softirq_proc_show` prints: the total and, for each online CPU, its count. -/
structure SoftirqShow (n : Nat) where
  total : Int32
  raises : List (Fin n × Int32)

def softirqProcShow (s : Softirqs n) : SoftirqShow n where
  total := s.count
  raises := ((List.finRange n).filter s.online).map fun cpu => (cpu, s.softirqCpuCount cpu)

inductive SoftirqEvent (n : Nat)
  | fire (cpu : Fin n) (raised : Option Softirq)
  | offline (cpu : Fin n)
  | online (cpu : Fin n)
deriving DecidableEq

inductive SoftirqStep : Softirqs n → SoftirqEvent n → Softirqs n → Prop
  | fire {s : Softirqs n} {cpu : Fin n} : s.online cpu = true →
      SoftirqStep s (.fire cpu (raiseSoftirqTimer s cpu).2) (raiseSoftirqTimer s cpu).1
  | offline {s : Softirqs n} {cpu : Fin n} :
      SoftirqStep s (.offline cpu) { s with online := Function.update s.online cpu false }
  | online {s : Softirqs n} {cpu : Fin n} :
      SoftirqStep s (.online cpu) { s with online := Function.update s.online cpu true }

/-- The module after it was loaded, with any CPUs online. -/
def raisingSoftirqs (n : Nat) : System (Softirqs n) (SoftirqEvent n) where
  init s := s.count = 0 ∧ ∀ cpu, s.softirqCpuCount cpu = 0
  step := SoftirqStep

/-! ## Firings -/

/-- Whether an event is a firing on a CPU. -/
def SoftirqEvent.isFireOn (cpu : Fin n) : SoftirqEvent n → Bool
  | .fire cpu' _ => cpu' = cpu
  | _ => false

def SoftirqEvent.isFire : SoftirqEvent n → Bool
  | .fire _ _ => true
  | _ => false

/-- The number of firings on a CPU. -/
def fires (tr : List (SoftirqEvent n)) (cpu : Fin n) : Nat := tr.countP (SoftirqEvent.isFireOn cpu)

/-- The number of firings. -/
def allFires (tr : List (SoftirqEvent n)) : Nat := tr.countP SoftirqEvent.isFire

/-- Every firing is on one CPU. -/
theorem allFires_eq_sum (tr : List (SoftirqEvent n)) : allFires tr = ∑ cpu, fires tr cpu := by
  induction tr with
  | nil => simp [allFires, fires]
  | cons e tr ih =>
    have hone : (if e.isFire = true then 1 else 0) = ∑ cpu, if e.isFireOn cpu = true then 1 else 0 := by
      cases e with
      | fire cpu raised => simp [SoftirqEvent.isFire, SoftirqEvent.isFireOn]
      | offline cpu => simp [SoftirqEvent.isFire, SoftirqEvent.isFireOn]
      | online cpu => simp [SoftirqEvent.isFire, SoftirqEvent.isFireOn]
    simp only [allFires, fires, List.countP_cons, Finset.sum_add_distrib] at ih ⊢
    rw [ih, hone]

/-- **The counters** after any run. -/
theorem run_counts {tr : List (SoftirqEvent n)} {s : Softirqs n} (h : (raisingSoftirqs n).Run tr s) :
    s.count = Int32.ofNat (allFires tr) ∧ ∀ cpu, s.softirqCpuCount cpu = Int32.ofNat (fires tr cpu) := by
  refine System.Run.history (P := fun tr s => s.count = Int32.ofNat (allFires tr) ∧
    ∀ cpu, s.softirqCpuCount cpu = Int32.ofNat (fires tr cpu)) (fun s hs => hs) ?_ h
  intro tr s e s' _ ih hstep
  obtain ⟨hcount, hcpu⟩ := ih
  simp only [allFires, fires, System.countP_snoc] at hcount hcpu ⊢
  cases hstep with
  | @fire cpu hon =>
    refine ⟨?_, fun cpu' => ?_⟩
    · simp only [raiseSoftirqTimer, hcount]
      exact (Int32.ofNat_add _ 1).symm
    · simp only [raiseSoftirqTimer, SoftirqEvent.isFireOn]
      by_cases hc : cpu = cpu'
      · subst hc
        rw [Function.update_self, hcpu, decide_eq_true rfl]
        exact (Int32.ofNat_add _ 1).symm
      · rw [Function.update_of_ne (Ne.symm hc), hcpu, decide_eq_false hc]
        rfl
  | offline => exact ⟨hcount, hcpu⟩
  | online => exact ⟨hcount, hcpu⟩

/-! ## Sums of numbers that wrap around -/

/-- A number as an `int`. -/
def wrapped (k : Nat) : Int := (Int32.ofNat k).toInt

theorem wrapped_eq (k : Nat) : wrapped k = Int.bmod k (2 ^ 32) := Int32.toInt_ofNat

theorem wrapped_of_lt {k : Nat} (h : k < 2 ^ 31) : wrapped k = k := Int32.toInt_ofNat_of_lt h

/-- It differs by a multiple of 2^32. -/
theorem dvd_sub_wrapped (k : Nat) : (2 ^ 32 : Int) ∣ k - wrapped k := by
  rw [wrapped_eq, Int.bmod_def]
  split <;> omega

/-- A number that differs from it by a multiple of 2^32 is equal to it exactly if it is an `int`. -/
theorem eq_wrapped_iff {x : Int} {k : Nat} :
    x = wrapped k ↔ (2 ^ 32 : Int) ∣ k - x ∧ -2 ^ 31 ≤ x ∧ x < 2 ^ 31 := by
  have hdvd := dvd_sub_wrapped k
  have hlow := Int32.le_toInt (Int32.ofNat k)
  have hhigh := Int32.toInt_lt (Int32.ofNat k)
  rw [← wrapped] at hlow hhigh
  constructor
  · rintro rfl
    exact ⟨hdvd, hlow, hhigh⟩
  · rintro ⟨hx, hl, hh⟩
    omega

section Sums

variable {ι : Type*} (on : Finset ι) (f : ι → Nat)

theorem dvd_sum_sub_wrapped : (2 ^ 32 : Int) ∣ (∑ c ∈ on, f c : Nat) - ∑ c ∈ on, wrapped (f c) := by
  rw [Nat.cast_sum, ← Finset.sum_sub_distrib]
  exact Finset.dvd_sum fun c _ => dvd_sub_wrapped (f c)

/-- Some numbers that wrap around add up to all of them exactly if the others are a multiple of 2^32 and the sum is an
`int`. -/
theorem listed_eq_total_iff [Fintype ι] [DecidableEq ι] :
    ∑ c ∈ on, wrapped (f c) = wrapped (∑ c, f c) ↔
      2 ^ 32 ∣ ∑ c ∈ onᶜ, f c ∧ -2 ^ 31 ≤ ∑ c ∈ on, wrapped (f c) ∧ ∑ c ∈ on, wrapped (f c) < 2 ^ 31 := by
  have hsplit : ∑ c, f c = ∑ c ∈ on, f c + ∑ c ∈ onᶜ, f c := (Finset.sum_add_sum_compl on f).symm
  have hdvd := dvd_sum_sub_wrapped on f
  rw [eq_wrapped_iff, hsplit]
  refine and_congr_left fun _ => ?_
  rw [← Int.natCast_dvd_natCast]
  push_cast at hdvd ⊢
  constructor
  · intro h
    omega
  · intro h
    omega

/-- Below 2^31 the others are zero. -/
theorem listed_eq_total_iff_of_lt [Fintype ι] [DecidableEq ι] (hlt : ∑ c, f c < 2 ^ 31) :
    ∑ c ∈ on, wrapped (f c) = wrapped (∑ c, f c) ↔ ∀ c ∉ on, f c = 0 := by
  have hsplit : ∑ c, f c = ∑ c ∈ on, f c + ∑ c ∈ onᶜ, f c := (Finset.sum_add_sum_compl on f).symm
  have hsmall : ∀ c, f c < 2 ^ 31 := fun c =>
    Nat.lt_of_le_of_lt (Finset.single_le_sum (fun _ _ => Nat.zero_le _) (Finset.mem_univ c)) hlt
  have hlisted : ∑ c ∈ on, wrapped (f c) = (∑ c ∈ on, f c : Nat) := by
    rw [Nat.cast_sum]
    exact Finset.sum_congr rfl fun c _ => wrapped_of_lt (hsmall c)
  have hzero : ∑ c ∈ onᶜ, f c = 0 ↔ ∀ c ∉ on, f c = 0 := by simp [Finset.sum_eq_zero_iff]
  rw [hlisted, wrapped_of_lt hlt, hsplit, ← hzero]
  omega

end Sums

/-! ## The listing -/

/-- What is listed adds up to the total. -/
def AddsUp (shown : SoftirqShow n) : Prop := (shown.raises.map fun r => r.2.toInt).sum = shown.total.toInt

/-- The CPUs that are listed. -/
def onlineCpus (s : Softirqs n) : Finset (Fin n) := Finset.univ.filter fun cpu => s.online cpu

theorem sum_raises (s : Softirqs n) : ((softirqProcShow s).raises.map fun r => r.2.toInt).sum =
    ∑ cpu ∈ onlineCpus s, (s.softirqCpuCount cpu).toInt := by
  have hcpus : ((List.finRange n).filter s.online).toFinset = onlineCpus s := by
    ext cpu
    simp [onlineCpus]
  rw [softirqProcShow, List.map_map, ← hcpus, List.sum_toFinset _ ((List.nodup_finRange n).filter _)]
  rfl

/-- The number of firings on CPUs that are offline. -/
def offlineFires (tr : List (SoftirqEvent n)) (s : Softirqs n) : Nat := ∑ cpu ∈ (onlineCpus s)ᶜ, fires tr cpu

/-- The sum of the counts that are listed. -/
def listedFires (tr : List (SoftirqEvent n)) (s : Softirqs n) : Int := ∑ cpu ∈ onlineCpus s, wrapped (fires tr cpu)

/-- **The statistics.** In every state of every run: what `softirq_proc_show` lists adds up to the total exactly if
the number of firings on CPUs that are now offline is a multiple of 2^32 and the sum of the list is an `int`. After
fewer than 2^31 firings, exactly if no CPU on which the timer has fired is offline. -/
theorem softirq_statistics (tr : List (SoftirqEvent n)) (s : Softirqs n) (h : (raisingSoftirqs n).Run tr s) :
    (AddsUp (softirqProcShow s) ↔
      2 ^ 32 ∣ offlineFires tr s ∧ -2 ^ 31 ≤ listedFires tr s ∧ listedFires tr s < 2 ^ 31) ∧
    (allFires tr < 2 ^ 31 →
      (AddsUp (softirqProcShow s) ↔ ∀ cpu, s.online cpu = false → fires tr cpu = 0)) := by
  obtain ⟨hcount, hcpu⟩ := run_counts h
  have hadds : AddsUp (softirqProcShow s) ↔
      ∑ cpu ∈ onlineCpus s, wrapped (fires tr cpu) = wrapped (∑ cpu, fires tr cpu) := by
    rw [AddsUp, sum_raises, softirqProcShow, hcount, allFires_eq_sum]
    simp only [hcpu, wrapped]
  rw [hadds]
  refine ⟨listed_eq_total_iff _ _, fun hlt => ?_⟩
  rw [listed_eq_total_iff_of_lt _ _ (allFires_eq_sum tr ▸ hlt)]
  simp [onlineCpus]

/-- Both of two CPUs are online. -/
def twoCpus : Softirqs 2 := ⟨0, fun _ => 0, fun _ => true⟩

/-- One firing on CPU 1. -/
def fireOnOne : List (SoftirqEvent 2) := [.fire 1 (some .tasklet)]

theorem run_fireOnOne : (raisingSoftirqs 2).Run fireOnOne (raiseSoftirqTimer twoCpus 1).1 :=
  ⟨twoCpus, ⟨rfl, fun _ => rfl⟩, .single (.fire rfl)⟩

theorem softirq_statistics_fireOnOne : AddsUp (softirqProcShow (raiseSoftirqTimer twoCpus 1).1) :=
  ((softirq_statistics fireOnOne _ run_fireOnOne).2 (by decide)).mpr (fun _ hoff => by cases hoff)

/-- CPU 1 goes offline after the firing: the total is 1, and all that is listed is a 0 for CPU 0. -/
theorem softirq_statistics_offline : ∃ s, (raisingSoftirqs 2).Run (fireOnOne ++ [.offline 1]) s ∧
    (softirqProcShow s).total = 1 ∧ (softirqProcShow s).raises = [(0, 0)] :=
  ⟨_, run_fireOnOne.snoc .offline, rfl, rfl⟩

end KernelModules.Timers
