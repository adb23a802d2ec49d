import Mathlib.Tactic.IntervalCases
import KernelModules.Lib.Deferred
import KernelModules.Timers.JiffiesConversions
import KernelModules.Timers.RaisingSoftirqs

/-!
# Timers that arm themselves again

Four modules have a timer whose callback counts the firing and arms the timer again: `basic_timer.c` up to the fifth
firing, `irq_test.c`, `raising_softirqs.c` and `jiffies_conversions.c` for ever. Their exit functions delete the timer
and remove the file, if there is one.

- `run_progress`: from the load to the unload the timer is pending or running exactly if the callback has not been
  called or has decided to go on, and once the exit has returned it is neither;
- `basic_timer_fires`: the basic timer fires at most five times and stops by itself exactly after the fifth;
- `self_arming_timers`: the three others never stop by themselves, and their counters are the number of firings.
-/

namespace KernelModules.Teardown.PeriodicTimers

open Lib Timers

universe u

/-! ## The code -/

/-- The data at load time, what a firing does to it, whether the timer is armed again then, and whether the module has a
file in `/proc`. -/
structure PeriodicTimer (A D : Type) where
  data : D
  fire : D → A → D
  again : D → Bool
  file : Bool

/-- `timer_callback` of `basic_timer.c`; the data is `timer_count`. -/
def basicTimer : PeriodicTimer Unit Int32 where
  data := 0
  fire timerCount _ := timerCount + 1
  again timerCount := timerCount < 5
  file := false

/-- `timer_func` of `irq_test.c`, which calls `test_handler`; the data is `irq_count`. -/
def irqTest : PeriodicTimer Unit Int32 where
  data := 0
  fire irqCount _ := irqCount + 1
  again _ := true
  file := true

/-- `raise_softirq_timer`, on any CPU. -/
def softirqDemo {n : Nat} (online : Fin n → Bool) : PeriodicTimer (Fin n) (Softirqs n) where
  data := ⟨0, fun _ => 0, online⟩
  fire s cpu := (raiseSoftirqTimer s cpu).1
  again _ := true
  file := true

/-- `time_callback`, at any times. -/
def timeDemo (h : Hz) (startJiffies : UInt64) (startKtime : Int64) : PeriodicTimer (Fin 5 → UInt64) TimeDemo where
  data := ⟨startJiffies, startKtime, 0⟩
  fire m jiffies := (timeCallback h m jiffies).1
  again _ := true
  file := true

inductive Component
  | timer
  /-- The read handler of the file. -/
  | procShow
deriving DecidableEq, Repr

instance : Fintype Component where
  elems := {.timer, .procShow}
  complete c := by cases c <;> decide

inductive Stmt
  | modTimer
  | procCreate (ok : Bool)
  | delTimerSync
  | procRemove
deriving DecidableEq, Repr

inductive Place
  | callback
  /-- At `mod_timer`. -/
  | rearm
  | show

inductive Act (A : Type)
  | fired (a : A)
  | rearmed
  | shown

section Code

variable {A D : Type} (T : PeriodicTimer A D)

/-- One action of a handler. -/
inductive Action : Component → (Component → Bool) → D → Place → Act A → D → Option Component → Option Place → Prop
  | fired {armed : Component → Bool} {d : D} (a : A) :
      Action .timer armed d .callback (.fired a) (T.fire d a) none (if T.again (T.fire d a) then some .rearm else none)
  | rearmed {armed : Component → Bool} {d : D} : Action .timer armed d .rearm .rearmed d (some .timer) none
  | shown {armed : Component → Bool} {d : D} : Action .procShow armed d .show .shown d none none

def workload : Workload Component Stmt Place (Act A) D where
  arms
    | .modTimer, .timer => true
    | .procCreate ok, .procShow => ok
    | _, _ => false
  closes
    | .delTimerSync, .timer => true
    | .procRemove, .procShow => true
    | _, _ => false
  cancels
    | .delTimerSync => true
    | .procRemove => true
    | _ => false
  keeps
    | .procShow => true
    | .timer => false
  serial
    | .timer => true
    | .procShow => false
  start
    | .timer, l => l = .callback
    | .procShow, l => l = .show
  act := Action T

/-- The init function, then the exit function. -/
def program (file ok : Bool) : List Stmt :=
  if file then [.modTimer, .procCreate ok, .delTimerSync, .procRemove] else [.modTimer, .delTimerSync]

/-- Loading, any firings and reads in any contexts, and unloading. -/
def periodic (I : Type u) [DecidableEq I] :
    System (Work I Component Stmt Place D) (WorkEvent I Component Stmt Place (Act A)) :=
  (workload T).system T.data fun ks => ∃ ok, ks = program T.file ok

end Code

/-! ## Firings -/

variable {A D : Type} {T : PeriodicTimer A D} {I : Type u} [DecidableEq I]
  {tr : List (WorkEvent I Component Stmt Place (Act A))} {s : Work I Component Stmt Place D}

/-- What a firing was given. -/
def firing : WorkEvent I Component Stmt Place (Act A) → Option A
  | .act _ _ (.fired a) _ => some a
  | _ => none

/-- The firings of a run, in order. -/
def firings (tr : List (WorkEvent I Component Stmt Place (Act A))) : List A := tr.filterMap firing

omit [DecidableEq I] in
theorem firings_snoc (tr : List (WorkEvent I Component Stmt Place (Act A)))
    (e : WorkEvent I Component Stmt Place (Act A)) :
    firings (tr ++ [e]) = firings tr ++ (firing e).toList := by
  rw [firings, List.filterMap_append, firings]
  cases h : firing e <;> simp [h]

/-- The data is what the firings made of it. -/
theorem run_data (h : (periodic T I).Run tr s) : s.data = (firings tr).foldl T.fire T.data := by
  refine System.Run.history (P := fun tr s => s.data = (firings tr).foldl T.fire T.data) ?_ ?_ h
  · rintro s ⟨hdata, -⟩
    exact hdata
  intro tr s e s' _ ih hstep
  rw [firings_snoc, List.foldl_append, ← ih]
  cases hstep with
  | control => rfl
  | start => rfl
  | act hactive hact =>
    cases hact with
    | fired a => rfl
    | rearmed => rfl
    | shown => rfl

/-! ## Unloading -/

/-- What the callback arms. -/
def sources : Component → Component → Bool
  | .timer, .timer => true
  | _, _ => false

theorem action_sources {c c' : Component} {armed : Component → Bool} {d d' : D} {l : Place} {a : Act A}
    {l' : Option Place} (h : (workload T).act c armed d l a d' (some c') l') : false = true ∨ sources c c' = true := by
  cases h with
  | rearmed => exact .inr rfl

theorem program_ordered : ∀ ks, (∃ ok, ks = program T.file ok) → (workload T).Ordered sources (fun _ => false) ks := by
  rintro ks ⟨ok, rfl⟩
  cases T.file with
  | true => cases ok with
    | true => exact of_decide_eq_true rfl
    | false => exact of_decide_eq_true rfl
  | false => exact of_decide_eq_true rfl

/-- What the program closes is idle when it has ended. -/
theorem run_idle (h : (periodic T I).Run tr s) (hend : s.todo = []) {c : Component} {k : Stmt}
    (hk : ∀ ok, k ∈ program T.file ok) (hc : (workload T).closes k c = true) : s.Idle c := by
  refine Workload.run_finished program_ordered action_sources ?_ hc (Workload.run_restrict h) hend
  rintro ks ⟨ok, rfl⟩
  exact hk ok

theorem run_timer_idle (h : (periodic T I).Run tr s) (hend : s.todo = []) : s.Idle .timer := by
  refine run_idle h hend (k := .delTimerSync) (fun ok => ?_) rfl
  cases T.file <;> simp [program]

theorem run_file_idle (h : (periodic T I).Run tr s) (hend : s.todo = []) (hfile : T.file = true) :
    s.Idle .procShow := by
  refine run_idle h hend (k := .procRemove) (fun ok => ?_) rfl
  simp [program, hfile]

/-! ## Going on -/

/-- The timer has not fired yet, or its callback has decided to go on. -/
def Wanted (T : PeriodicTimer A D) (tr : List (WorkEvent I Component Stmt Place (Act A)))
    (s : Work I Component Stmt Place D) : Prop := firings tr = [] ∨ T.again s.data = true

/-- The timer is loaded and not deleted. -/
def Loaded (s : Work I Component Stmt Place D) : Prop := .modTimer ∈ s.done ∧ .delTimerSync ∉ s.done

/-- Between load and unload the timer is pending or running exactly if it is wanted. -/
structure Progress (T : PeriodicTimer A D) (tr : List (WorkEvent I Component Stmt Place (Act A)))
    (s : Work I Component Stmt Place D) : Prop where
  fresh : .modTimer ∉ s.done → s.Idle .timer ∧ firings tr = []
  once : ¬s.Resting .timer → s.armed .timer = false
  wanted : ¬s.Idle .timer → Wanted T tr s
  goesOn : Loaded s → Wanted T tr s → ¬s.Idle .timer

omit [DecidableEq I] in
/-- A timer that is armed is not idle. -/
theorem not_idle_of_armed (h : s.armed .timer = true) : ¬s.Idle .timer := fun hidle => by
  rw [hidle.1] at h
  cases h

omit [DecidableEq I] in
theorem not_idle_of_running (h : ¬s.Resting .timer) : ¬s.Idle .timer := fun hidle => h hidle.2

/-- The first statement is the only one that arms the timer. -/
theorem modTimer_first (h : (periodic T I).Run tr s) {ks : List Stmt} (htodo : s.todo = .modTimer :: ks) :
    .modTimer ∉ s.done := by
  obtain ⟨ok, hprogram⟩ := Workload.run_program h
  rw [htodo] at hprogram
  intro hmem
  have hcount := congrArg (List.count Stmt.modTimer) hprogram
  rw [List.count_append, List.count_cons_self] at hcount
  have hone : (program T.file ok).count .modTimer = 1 := by
    cases T.file with
    | true => cases ok <;> rfl
    | false => cases ok <;> rfl
  have hpos := List.count_pos_iff.mpr hmem
  omega

omit [DecidableEq I] in
/-- A step that does not concern the timer. -/
theorem Progress.same {e : WorkEvent I Component Stmt Place (Act A)} {s' : Work I Component Stmt Place D}
    (h : Progress T tr s) (hfiring : firing e = none) (harmed : s'.armed .timer = s.armed .timer)
    (hrest : s'.Resting .timer ↔ s.Resting .timer) (hdata : s'.data = s.data)
    (hmod : .modTimer ∈ s'.done ↔ .modTimer ∈ s.done) (hdel : .delTimerSync ∈ s.done → .delTimerSync ∈ s'.done) :
    Progress T (tr ++ [e]) s' := by
  have hfir : firings (tr ++ [e]) = firings tr := by simp [firings_snoc, hfiring]
  have hidle : s'.Idle .timer ↔ s.Idle .timer := by rw [Work.Idle, Work.Idle, harmed, hrest]
  have hwanted : Wanted T (tr ++ [e]) s' ↔ Wanted T tr s := by rw [Wanted, Wanted, hfir, hdata]
  refine ⟨fun hnot => ?_, fun hbusy => harmed.trans (h.once (mt hrest.mpr hbusy)),
    fun hbusy => hwanted.mpr (h.wanted (mt hidle.mpr hbusy)), fun hl hw => ?_⟩
  · rw [hidle, hfir]
    exact h.fresh (mt hmod.mpr hnot)
  · exact mt hidle.mp (h.goesOn ⟨hmod.mp hl.1, mt hdel hl.2⟩ (hwanted.mp hw))

theorem Progress.control {k : Stmt} {ks : List Stmt} (hrun : (periodic T I).Run tr s) (h : Progress T tr s)
    (htodo : s.todo = k :: ks) (hclose : ∀ c, (workload T).closes k c = true → s.Resting c) :
    Progress T (tr ++ [.control k])
      { s with armed := (workload T).armedAfter k s.armed, done := s.done ++ [k], todo := ks } := by
  have hlast : k ∈ s.done ++ [k] := List.mem_append_right _ (List.mem_singleton.mpr rfl)
  have hother : k ≠ .modTimer → (.modTimer ∈ s.done ++ [k] ↔ .modTimer ∈ s.done) := fun hk => by
    simp [Ne.symm hk]
  cases k with
  | modTimer =>
    obtain ⟨hidle, hnone⟩ := h.fresh (modTimer_first hrun htodo)
    have hnone' : firings (tr ++ [.control .modTimer]) = [] := by simp [firings_snoc, firing, hnone]
    exact ⟨fun hnot => absurd hlast hnot, fun hbusy => absurd hidle.2 hbusy, fun _ => .inl hnone',
      fun _ _ => not_idle_of_armed rfl⟩
  | procCreate ok => exact h.same rfl rfl Iff.rfl rfl (hother (by simp)) (List.mem_append_left _)
  | delTimerSync =>
    have hrest := hclose .timer rfl
    have hsame : firings (tr ++ [.control .delTimerSync]) = firings tr := by simp [firings_snoc, firing]
    refine ⟨fun hnot => ⟨⟨rfl, hrest⟩, hsame.trans ?_⟩, fun hbusy => absurd hrest hbusy,
      fun hbusy => absurd ⟨rfl, hrest⟩ hbusy, fun hl => absurd hlast hl.2⟩
    exact (h.fresh (mt (hother (by simp)).mpr hnot)).2
  | procRemove => exact h.same rfl rfl Iff.rfl rfl (hother (by simp)) (List.mem_append_left _)

/-- The callback counts, and goes on to arm the timer or comes to its end. -/
theorem Progress.fired {i : I} {a : A} (hrun : (periodic T I).Run tr s) (h : Progress T tr s)
    (hactive : s.active i = some (.timer, .callback)) :
    Progress T (tr ++ [.act i .timer (.fired a) none])
      { s with
        data := T.fire s.data a
        active := Function.update s.active i
          ((if T.again (T.fire s.data a) then some Place.rearm else none).map fun l => (.timer, l)) } := by
  have hbusy : ¬s.Resting .timer := fun hrest => hrest i _ hactive
  have harmed := h.once hbusy
  have hdone : .modTimer ∈ s.done := by
    by_contra hnot
    exact not_idle_of_running hbusy (h.fresh hnot).1
  cases hagain : T.again (T.fire s.data a) with
  | true =>
    refine ⟨fun hnot => absurd hdone hnot, fun _ => harmed, fun _ => .inr hagain, fun _ _ => not_idle_of_running ?_⟩
    exact fun hrest => hrest i .rearm (Function.update_self ..)
  | false =>
    have hrest := Workload.resting_of_end (c := Component.timer) rfl hrun hactive
    refine ⟨fun hnot => absurd hdone hnot, fun hbusy => absurd hrest hbusy, fun hbusy => absurd ⟨harmed, hrest⟩ hbusy,
      fun _ hw => ?_⟩
    rcases hw with hw | hw
    · simp [firings_snoc, firing] at hw
    · exact absurd hw (by simp [hagain])

theorem Progress.step {e : WorkEvent I Component Stmt Place (Act A)} {s' : Work I Component Stmt Place D}
    (hrun : (periodic T I).Run tr s) (h : Progress T tr s) (hstep : (periodic T I).step s e s') :
    Progress T (tr ++ [e]) s' := by
  cases hstep with
  | control htodo hclose => exact h.control hrun htodo fun c hc => (hclose c hc).1
  | @start i c l hfree harmed hstart _ =>
    cases c with
    | timer =>
      -- it was pending and is running now
      have hbusy := not_idle_of_armed harmed
      have hfir : firings (tr ++ [.start i .timer l]) = firings tr := by simp [firings_snoc, firing]
      refine ⟨fun hnot => absurd (h.fresh hnot).1 hbusy, fun _ => rfl, fun _ => ?_,
        fun _ _ => not_idle_of_running fun hrest => hrest i l (Function.update_self ..)⟩
      rw [Wanted, hfir]
      exact h.wanted hbusy
    | procShow =>
      refine h.same rfl rfl (resting_update_iff (fun l h => ?_) fun l h => by cases h) rfl Iff.rfl id
      rw [hfree] at h
      cases h
  | @act i c l a d c' l' hactive hact =>
    cases hact with
    | fired a => exact h.fired hrun hactive
    | rearmed =>
      have hbusy := not_idle_of_running fun hrest => hrest i _ hactive
      have hfir : firings (tr ++ [.act i .timer .rearmed (some .timer)]) = firings tr := by simp [firings_snoc, firing]
      refine ⟨fun hnot => absurd (h.fresh hnot).1 hbusy, fun hbusy' => ?_, fun _ => ?_,
        fun _ _ => not_idle_of_armed rfl⟩
      · exact absurd (Workload.resting_of_end (c := Component.timer) rfl hrun hactive) hbusy'
      · rw [Wanted, hfir]
        exact h.wanted hbusy
    | shown =>
      refine h.same rfl rfl (resting_update_iff (fun l h => ?_) fun l h => by cases h) rfl Iff.rfl id
      rw [hactive] at h
      cases h

/-- **Going on and stopping.** -/
theorem run_progress (h : (periodic T I).Run tr s) : Progress T tr s := by
  refine System.Run.history (P := Progress T) ?_ (fun _ _ _ _ hrun hp hstep => hp.step hrun hstep) h
  rintro s ⟨hdata, harmed, hactive, hdone, -⟩
  have hidle : s.Idle .timer := ⟨harmed .timer, fun i l hi => by rw [hactive i] at hi; cases hi⟩
  refine ⟨fun _ => ⟨hidle, rfl⟩, fun hbusy => absurd hidle.2 hbusy, fun hbusy => absurd hidle hbusy, fun hl => ?_⟩
  rw [Loaded, hdone] at hl
  cases hl.1

/-- A counter that every firing increments. -/
theorem run_counter (counter : D → Int32) (hfire : ∀ d a, counter (T.fire d a) = counter d + 1)
    (hzero : counter T.data = 0) (h : (periodic T I).Run tr s) : counter s.data = Int32.ofNat (firings tr).length := by
  have hfold : ∀ (as : List A) (d : D), counter (as.foldl T.fire d) = counter d + Int32.ofNat as.length := by
    intro as
    induction as with
    | nil => intro d; simp
    | cons a as ih =>
      intro d
      rw [List.foldl_cons, ih, hfire, List.length_cons, Int32.ofNat_add, Int32.add_assoc, Int32.add_comm 1]
      rfl
  rw [run_data h, hfold, hzero, Int32.zero_add]

/-- The timer is armed, fires once and is armed again. -/
def fireOnce (a : A) : List (WorkEvent Unit Component Stmt Place (Act A)) :=
  [.control .modTimer, .start () .timer .callback, .act () .timer (.fired a) none,
    .act () .timer .rearmed (some .timer)]

theorem run_fireOnce {a : A} (hagain : T.again (T.fire T.data a) = true) :
    ∃ s, (periodic T Unit).Run (fireOnce a) s ∧ Loaded s := by
  obtain ⟨ks, hks⟩ : ∃ ks, program T.file true = .modTimer :: ks := by
    cases T.file with
    | true => exact ⟨_, rfl⟩
    | false => exact ⟨_, rfl⟩
  have hfired : ∀ armed, Action T .timer armed T.data .callback (.fired a) (T.fire T.data a) none (some .rearm) := by
    intro armed
    have h := @Action.fired _ _ T armed T.data a
    rwa [if_pos hagain] at h
  refine ⟨_, ⟨⟨T.data, fun _ => false, fun _ => none, [], .modTimer :: ks⟩,
    ⟨rfl, fun _ => rfl, fun _ => rfl, rfl, true, hks.symm⟩,
    .cons (.quiet rfl (fun _ => rfl) (.inr fun _ _ => rfl)) <| .cons (.start rfl rfl rfl (fun _ _ _ h => by cases h)) <|
    .cons (.act rfl (hfired _)) <| .single (.act rfl .rearmed)⟩, ?_⟩
  exact ⟨List.mem_singleton.mpr rfl, by simp⟩

/-! ## The modules -/

section Basic

variable {tr : List (WorkEvent I Component Stmt Place (Act Unit))} {s : Work I Component Stmt Place Int32}

/-- Below five firings the callback goes on. -/
theorem basicTimer_again {n : Nat} (h : n ≤ 5) : basicTimer.again (Int32.ofNat n) = true ↔ n < 5 := by
  interval_cases n <;> decide

theorem basicTimer_wanted_iff (h : (periodic basicTimer I).Run tr s) (hle : (firings tr).length ≤ 5) :
    Wanted basicTimer tr s ↔ (firings tr).length < 5 := by
  have hdata : s.data = Int32.ofNat (firings tr).length := run_counter id (fun _ _ => rfl) rfl h
  rw [Wanted, hdata, basicTimer_again hle, ← List.length_eq_zero_iff]
  omega

theorem basicTimer_le (h : (periodic basicTimer I).Run tr s) : (firings tr).length ≤ 5 := by
  refine System.Run.history (P := fun tr _ => (firings tr).length ≤ 5) (fun _ _ => by simp [firings]) ?_ h
  intro tr s e s' hrun ih hstep
  rw [firings_snoc, List.length_append]
  cases hfiring : firing e with
  | none => simpa using ih
  | some a =>
    -- the callback runs, so it was wanted
    cases hstep with
    | control => cases hfiring
    | start => cases hfiring
    | @act i c l a d c' l' hactive hact =>
      cases hact with
      | fired a =>
        have hlt := (basicTimer_wanted_iff hrun ih).mp
          ((run_progress hrun).wanted (not_idle_of_running fun hrest => hrest i _ hactive))
        simp only [Option.toList_some, List.length_singleton]
        omega
      | rearmed => cases hfiring
      | shown => cases hfiring

end Basic

/-- **The basic timer.** It fires at most five times; `timer_count` is the number of firings; while the module is
loaded the timer is neither pending nor running exactly if it has fired five times, and never once `timer_exit` has
returned. -/
theorem basic_timer_fires (tr : List (WorkEvent I Component Stmt Place (Act Unit)))
    (s : Work I Component Stmt Place Int32)
    (h : (periodic basicTimer I).Run tr s) :
    (firings tr).length ≤ 5 ∧ s.data = Int32.ofNat (firings tr).length ∧
      (Loaded s → (s.Idle .timer ↔ (firings tr).length = 5)) ∧ (s.todo = [] → s.Idle .timer) := by
  have hle := basicTimer_le h
  refine ⟨hle, run_counter id (fun _ _ => rfl) rfl h, fun hl => ?_, run_timer_idle h⟩
  have hwanted := basicTimer_wanted_iff h hle
  have hprogress := run_progress h
  constructor
  · intro hidle
    by_contra hne
    exact hprogress.goesOn hl (hwanted.mpr (by omega)) hidle
  · intro hfive
    by_contra hbusy
    have := hwanted.mp (hprogress.wanted hbusy)
    omega

/-- After one firing the count is 1, and the timer is pending again. -/
theorem basic_timer_fires_once : ∃ s, (periodic basicTimer Unit).Run (fireOnce ()) s ∧ s.data = 1 ∧ Loaded s ∧
    ¬s.Idle .timer := by
  obtain ⟨s, hrun, hl⟩ := run_fireOnce (T := basicTimer) (a := ()) (by decide)
  obtain ⟨-, hdata, hidle, -⟩ := basic_timer_fires _ _ hrun
  exact ⟨s, hrun, hdata, hl, fun h => absurd ((hidle hl).mp h) (by decide)⟩

/-- The timer of a module never stops by itself, and nothing is left of it after the exit. -/
structure ForEver (tr : List (WorkEvent I Component Stmt Place (Act A))) (s : Work I Component Stmt Place D)
    (counter : Int32) : Prop where
  counts : counter = Int32.ofNat (firings tr).length
  goesOn : Loaded s → ¬s.Idle .timer
  stopped : s.todo = [] → s.Idle .timer ∧ s.Idle .procShow

theorem run_forEver (counter : D → Int32) (hagain : ∀ d, T.again d = true) (hfile : T.file = true)
    (hfire : ∀ d a, counter (T.fire d a) = counter d + 1) (hzero : counter T.data = 0) (h : (periodic T I).Run tr s) :
    ForEver tr s (counter s.data) :=
  ⟨run_counter counter hfire hzero h, fun hl => (run_progress h).goesOn hl (.inr (hagain _)),
    fun hend => ⟨run_timer_idle h hend, run_file_idle h hend hfile⟩⟩

/-- **The timers of `irq_test.c`, `raising_softirqs.c` and `jiffies_conversions.c`** are pending or running from the
load to the unload, whatever the contexts do, and idle with the file once the exit has returned; each counter is the
number of firings, as an `int`. -/
theorem self_arming_timers :
    (∀ tr s, (periodic irqTest I).Run tr s → ForEver tr s s.data) ∧
    (∀ {n : Nat} (online : Fin n → Bool) tr s, (periodic (softirqDemo online) I).Run tr s → ForEver tr s s.data.count) ∧
    ∀ hz startJiffies startKtime tr s, (periodic (timeDemo hz startJiffies startKtime) I).Run tr s →
      ForEver tr s s.data.timerFires :=
  ⟨fun _ _ h => run_forEver id (fun _ => rfl) rfl (fun _ _ => rfl) rfl h,
    fun _ _ _ h => run_forEver Softirqs.count (fun _ => rfl) rfl (fun _ _ => rfl) rfl h,
    fun _ _ _ _ _ h => run_forEver TimeDemo.timerFires (fun _ => rfl) rfl (fun _ _ => rfl) rfl h⟩

/-- The timer of `irq_test.c` fires once and is pending again. -/
theorem self_arming_timers_irqTest : ∃ s, (periodic irqTest Unit).Run (fireOnce ()) s ∧ s.data = 1 ∧ Loaded s ∧
    ¬s.Idle .timer := by
  obtain ⟨s, hrun, hl⟩ := run_fireOnce (T := irqTest) (a := ()) rfl
  have hforEver := self_arming_timers.1 _ _ hrun
  exact ⟨s, hrun, hforEver.counts, hl, hforEver.goesOn hl⟩

end KernelModules.Teardown.PeriodicTimers
