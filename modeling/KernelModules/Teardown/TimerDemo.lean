import KernelModules.Lib.Deferred

/-!
# Unloading the timer demo

`demo_timer` schedules a tasklet and queues a work item each time it fires, and arms itself again; `hr_timer` restarts
itself. `timer_demo_exit` removes the file, stops the two timers, then waits for the tasklet and the work item, which
nothing can schedule any more: everything is idle when it has returned, and nothing is queued on the work queue after
its destruction has begun (`timer_demo_teardown`).

A failing `timer_demo_init` stops the timers and destroys the queue but does not wait for the tasklet: the other
components are idle when it has returned (`others_idle`); the tasklet is, exactly if it happens to have run after it was
scheduled (`timer_demo_failed_load`).
-/

namespace KernelModules.Teardown.TimerDemo

open Lib

universe u

/-! ## The code -/

inductive Component
  | demoTimer
  | hrTimer
  | demoTasklet
  | demoWork
  /-- The read handler of `/proc/timer_demo`. -/
  | procShow
deriving DecidableEq, Repr

instance : Fintype Component where
  elems := {.demoTimer, .hrTimer, .demoTasklet, .demoWork, .procShow}
  complete c := by cases c <;> decide

/-- The statements of `timer_demo_init` and `timer_demo_exit`. `destroy_workqueue` begins, then drains the queue. -/
inductive Stmt
  | addTimer
  | hrtimerStart
  | procCreate (ok : Bool)
  | procRemove
  | delTimerSync
  | hrtimerCancel
  | taskletKill
  | flushWorkqueue
  | destroyWorkqueue
  | drained
deriving DecidableEq, Repr

structure Data where
  timerCount : Int32
  taskletCount : Int32
  workCount : Int32
  hrtimerCount : Int32

inductive Place
  /-- `demo_timer_callback`, at `atomic_inc(&timer_count)`. -/
  | timerEntry
  /-- `demo_interrupt_handler`, at `tasklet_schedule`. -/
  | taskletSchedule
  /-- `demo_interrupt_handler`, at `queue_work`. -/
  | queueWork
  /-- `demo_timer_callback`, at `mod_timer`. -/
  | modTimer
  /-- `hr_timer_callback`, at `atomic_inc(&hrtimer_count)`. -/
  | hrEntry
  /-- At `return HRTIMER_RESTART`, upon which the timer is armed again. -/
  | hrRestart
  | taskletHandler
  | workHandler
  /-- `demo_work_handler`, in `msleep`. -/
  | workSleep
  /-- `demo_proc_show`, which prints the counts. -/
  | procShow

inductive Act
  | inc
  | taskletSchedule
  | queueWork
  | modTimer
  | hrRestart
  | wake
  | shown

/-- One action of a handler. -/
inductive Action : Component → (Component → Bool) → Data → Place → Act → Data → Option Component → Option Place → Prop
  | timerEntry {armed : Component → Bool} {d : Data} :
      Action .demoTimer armed d .timerEntry .inc { d with timerCount := d.timerCount + 1 } none (some .taskletSchedule)
  | taskletSchedule {armed : Component → Bool} {d : Data} :
      Action .demoTimer armed d .taskletSchedule .taskletSchedule d (some .demoTasklet) (some .queueWork)
  | queueWork {armed : Component → Bool} {d : Data} :
      Action .demoTimer armed d .queueWork .queueWork d (some .demoWork) (some .modTimer)
  | modTimer {armed : Component → Bool} {d : Data} :
      Action .demoTimer armed d .modTimer .modTimer d (some .demoTimer) none
  | hrEntry {armed : Component → Bool} {d : Data} :
      Action .hrTimer armed d .hrEntry .inc { d with hrtimerCount := d.hrtimerCount + 1 } none (some .hrRestart)
  | hrRestart {armed : Component → Bool} {d : Data} :
      Action .hrTimer armed d .hrRestart .hrRestart d (some .hrTimer) none
  | taskletHandler {armed : Component → Bool} {d : Data} :
      Action .demoTasklet armed d .taskletHandler .inc { d with taskletCount := d.taskletCount + 1 } none none
  | workHandler {armed : Component → Bool} {d : Data} :
      Action .demoWork armed d .workHandler .inc { d with workCount := d.workCount + 1 } none (some .workSleep)
  | workSleep {armed : Component → Bool} {d : Data} : Action .demoWork armed d .workSleep .wake d none none
  | procShow {armed : Component → Bool} {d : Data} : Action .procShow armed d .procShow .shown d none none

def workload : Workload Component Stmt Place Act Data where
  arms
    | .addTimer, .demoTimer => true
    | .hrtimerStart, .hrTimer => true
    | .procCreate ok, .procShow => ok
    | _, _ => false
  closes
    | .procRemove, .procShow => true
    | .delTimerSync, .demoTimer => true
    | .hrtimerCancel, .hrTimer => true
    | .taskletKill, .demoTasklet => true
    | .flushWorkqueue, .demoWork => true
    | .drained, .demoWork => true
    | _, _ => false
  -- `tasklet_kill`, `flush_workqueue` and the drain wait until what is scheduled has run
  cancels
    | .procRemove => true
    | .delTimerSync => true
    | .hrtimerCancel => true
    | _ => false
  keeps
    | .procShow => true
    | _ => false
  serial
    | .procShow => false
    | _ => true
  start
    | .demoTimer, l => l = .timerEntry
    | .hrTimer, l => l = .hrEntry
    | .demoTasklet, l => l = .taskletHandler
    | .demoWork, l => l = .workHandler
    | .procShow, l => l = .procShow
  act := Action

def timerDemoExit : List Stmt :=
  [.procRemove, .delTimerSync, .hrtimerCancel, .taskletKill, .flushWorkqueue, .destroyWorkqueue, .drained]

/-- The label `cleanup_timers` of `timer_demo_init`. -/
def cleanupTimers : List Stmt := [.delTimerSync, .hrtimerCancel, .destroyWorkqueue, .drained]

/-- `timer_demo_init`, then `timer_demo_exit`, or its own cleanup if the file could not be made. -/
def program (procOk : Bool) : List Stmt :=
  [.addTimer, .hrtimerStart, .procCreate procOk] ++ if procOk then timerDemoExit else cleanupTimers

/-- Loading, any firings, executions and reads in any contexts, and unloading or cleaning up. -/
def timerDemo (I : Type u) [DecidableEq I] (procOk : Bool) :
    System (Work I Component Stmt Place Data) (WorkEvent I Component Stmt Place Act) :=
  workload.system ⟨0, 0, 0, 0⟩ (· = program procOk)

/-! ## Unloading -/

/-- What the timers arm. -/
def sources : Component → Component → Bool
  | .demoTimer, .demoTimer => true
  | .demoTimer, .demoTasklet => true
  | .demoTimer, .demoWork => true
  | .hrTimer, .hrTimer => true
  | _, _ => false

theorem action_sources {c c' : Component} {armed : Component → Bool} {d d' : Data} {l : Place} {a : Act}
    {l' : Option Place} (h : workload.act c armed d l a d' (some c') l') : false = true ∨ sources c c' = true := by
  cases h with
  | taskletSchedule => exact .inr rfl
  | queueWork => exact .inr rfl
  | modTimer => exact .inr rfl
  | hrRestart => exact .inr rfl

theorem program_ordered (procOk : Bool) :
    ∀ ks, ks = program procOk → workload.Ordered sources (fun _ => false) ks := by
  rintro ks rfl
  cases procOk with
  | true => decide
  | false => decide

section Runs

variable {I : Type u} [DecidableEq I] {procOk : Bool} {tr : List (WorkEvent I Component Stmt Place Act)}
  {s s' : Work I Component Stmt Place Data}

/-- What the program closes is idle when it has ended. -/
theorem run_idle (h : (timerDemo I procOk).Run tr s) (hend : s.todo = []) {c : Component} {k : Stmt}
    (hk : k ∈ program procOk) (hc : workload.closes k c = true) : s.Idle c := by
  refine Workload.run_finished (program_ordered procOk) action_sources ?_ hc (Workload.run_restrict h) hend
  rintro ks rfl
  exact hk

/-- Only `demo_timer` queues work, and it is stopped before the queue is destroyed. -/
theorem queueWork_before (h : (timerDemo I procOk).Run tr s) {i : I} {c : Component} {armed : Option Component}
    (hstep : (timerDemo I procOk).step s (.act i c .queueWork armed) s') : .destroyWorkqueue ∉ s.done := by
  intro hdestroy
  have hprogram := Workload.run_program h
  have hstopped : .delTimerSync ∈ s.done := by
    cases procOk with
    | true =>
      have hsplit : program true = [.addTimer, .hrtimerStart, .procCreate true, .procRemove, .delTimerSync,
          .hrtimerCancel, .taskletKill, .flushWorkqueue] ++ .destroyWorkqueue :: [.drained] := rfl
      exact Workload.mem_done (hprogram.trans hsplit) hdestroy (by decide) (by decide)
    | false =>
      have hsplit : program false = [.addTimer, .hrtimerStart, .procCreate false, .delTimerSync, .hrtimerCancel] ++
          .destroyWorkqueue :: [.drained] := rfl
      exact Workload.mem_done (hprogram.trans hsplit) hdestroy (by decide) (by decide)
  have hidle : s.Idle .demoTimer :=
    Workload.run_idle_of_mem (program_ordered procOk) action_sources (Workload.run_restrict h) hstopped rfl
  cases hstep with
  | act hactive hact =>
    cases hact with
    | queueWork => exact hidle.2 _ _ hactive

end Runs

/-- **Unloading the timer demo.** Once `timer_demo_exit` has returned, neither timer, nor the tasklet, nor the work
item, nor a handler of the file is pending or running; and in no state of any run is work queued after
`destroy_workqueue` has begun. -/
theorem timer_demo_teardown {I : Type u} [DecidableEq I] (tr : List (WorkEvent I Component Stmt Place Act))
    (s : Work I Component Stmt Place Data) (h : (timerDemo I true).Run tr s) :
    (s.todo = [] → ∀ c, s.Idle c) ∧
    (∀ i c armed s', (timerDemo I true).step s (.act i c .queueWork armed) s' → .destroyWorkqueue ∉ s.done) := by
  refine ⟨fun hexit c => ?_, fun i c armed s' hstep => queueWork_before h hstep⟩
  cases c with
  | demoTimer => exact run_idle h hexit (k := .delTimerSync) (by decide) rfl
  | hrTimer => exact run_idle h hexit (k := .hrtimerCancel) (by decide) rfl
  | demoTasklet => exact run_idle h hexit (k := .taskletKill) (by decide) rfl
  | demoWork => exact run_idle h hexit (k := .flushWorkqueue) (by decide) rfl
  | procShow => exact run_idle h hexit (k := .procRemove) (by decide) rfl

/-- No handler runs and the program is at its start. -/
def loaded (procOk : Bool) : Work Unit Component Stmt Place Data :=
  ⟨⟨0, 0, 0, 0⟩, fun _ => false, fun _ => none, [], program procOk⟩

theorem loaded_init (procOk : Bool) : (timerDemo Unit procOk).init (loaded procOk) :=
  ⟨rfl, fun _ => rfl, fun _ => rfl, rfl, rfl⟩

/-- `demo_timer` fires, and what it schedules runs while the timers are being stopped. -/
def fireThenExit : List (WorkEvent Unit Component Stmt Place Act) :=
  [.control .addTimer, .control .hrtimerStart, .control (.procCreate true), .start () .demoTimer .timerEntry,
    .act () .demoTimer .inc none, .act () .demoTimer .taskletSchedule (some .demoTasklet),
    .act () .demoTimer .queueWork (some .demoWork), .act () .demoTimer .modTimer (some .demoTimer),
    .control .procRemove,
    .control .delTimerSync, .start () .demoTasklet .taskletHandler, .act () .demoTasklet .inc none,
    .control .hrtimerCancel,
    .control .taskletKill, .start () .demoWork .workHandler, .act () .demoWork .inc none, .act () .demoWork .wake none,
    .control .flushWorkqueue, .control .destroyWorkqueue, .control .drained]

theorem timer_demo_teardown_fireThenExit : ∃ s, (timerDemo Unit true).Run fireThenExit s ∧ s.todo = [] ∧
    s.Idle .demoTimer ∧ s.Idle .hrTimer ∧ s.Idle .demoTasklet ∧ s.Idle .demoWork ∧ s.Idle .procShow := by
  have hrun : (timerDemo Unit true).Run fireThenExit _ :=
    ⟨loaded true, loaded_init true,
      .cons (.quiet rfl (fun _ => rfl) (.inr (by decide))) <| .cons (.quiet rfl (fun _ => rfl) (.inr (by decide))) <|
      .cons (.quiet rfl (fun _ => rfl) (.inr (by decide))) <|
      .cons (.start rfl rfl rfl (fun _ _ _ h => by cases h)) <| .cons (.act rfl .timerEntry) <|
      .cons (.act rfl .taskletSchedule) <| .cons (.act rfl .queueWork) <| .cons (.act rfl .modTimer) <|
      .cons (.quiet rfl (fun _ => rfl) (.inl rfl)) <| .cons (.quiet rfl (fun _ => rfl) (.inl rfl)) <|
      .cons (.start rfl rfl rfl (fun _ _ _ h => by cases h)) <| .cons (.act rfl .taskletHandler) <|
      .cons (.quiet rfl (fun _ => rfl) (.inl rfl)) <| .cons (.quiet rfl (fun _ => rfl) (.inr (by decide))) <|
      .cons (.start rfl rfl rfl (fun _ _ _ h => by cases h)) <| .cons (.act rfl .workHandler) <|
      .cons (.act rfl .workSleep) <| .cons (.quiet rfl (fun _ => rfl) (.inr (by decide))) <|
      .cons (.quiet rfl (fun _ => rfl) (.inr (by decide))) <| .cons (.quiet rfl (fun _ => rfl) (.inr (by decide))) <|
        .nil _⟩
  have hidle := (timer_demo_teardown _ _ hrun).1 rfl
  exact ⟨_, hrun, rfl, hidle _, hidle _, hidle _, hidle _, hidle _⟩

/-! ## A failed load -/

/-- What a failing `timer_demo_init` executes once it has tried to create the work queue: without it, nothing. -/
def failedLoad (wqOk : Bool) : List Stmt := if wqOk then program false else []

/-- A load that fails, and any firings, executions and reads in any contexts. -/
def timerDemoFailed (I : Type u) [DecidableEq I] (wqOk : Bool) :
    System (Work I Component Stmt Place Data) (WorkEvent I Component Stmt Place Act) :=
  workload.system ⟨0, 0, 0, 0⟩ (· = failedLoad wqOk)

section Failed

variable {I : Type u} [DecidableEq I] {wqOk : Bool} {tr : List (WorkEvent I Component Stmt Place Act)}
  {s : Work I Component Stmt Place Data}

/-- The cleanup leaves the timers and the work item idle. -/
theorem cleanup_idle (h : (timerDemo I false).Run tr s) (hend : s.todo = []) :
    s.Idle .demoTimer ∧ s.Idle .hrTimer ∧ s.Idle .demoWork :=
  ⟨run_idle h hend (k := .delTimerSync) (by decide) rfl, run_idle h hend (k := .hrtimerCancel) (by decide) rfl,
    run_idle h hend (k := .drained) (by decide) rfl⟩

/-- Without the work queue nothing is ever armed. -/
theorem early_idle (h : (timerDemoFailed I false).Run tr s) (c : Component) : s.Idle c := by
  have hquiet : (∀ c, s.armed c = false) ∧ (∀ i, s.active i = none) ∧ s.todo = [] := by
    refine h.invariant (I := fun s => (∀ c, s.armed c = false) ∧ (∀ i, s.active i = none) ∧ s.todo = []) ?_ ?_
    · rintro s ⟨-, harmed, hactive, -, htodo⟩
      exact ⟨harmed, hactive, htodo⟩
    · rintro s e s' ⟨harmed, hactive, htodo⟩ hstep
      cases hstep with
      | control htodo' =>
        rw [htodo] at htodo'
        cases htodo'
      | @start i c l _ harmed' =>
        rw [harmed c] at harmed'
        cases harmed'
      | @act i c l a d c' l' hactive' =>
        rw [hactive i] at hactive'
        cases hactive'
  refine ⟨hquiet.1 c, fun i l hi => ?_⟩
  rw [hquiet.2.1 i] at hi
  cases hi

theorem others_idle (h : (timerDemoFailed I wqOk).Run tr s) (hend : s.todo = []) :
    s.Idle .demoTimer ∧ s.Idle .hrTimer ∧ s.Idle .demoWork := by
  cases wqOk with
  | true => exact cleanup_idle h hend
  | false => exact ⟨early_idle h _, early_idle h _, early_idle h _⟩

/-- No statement of a failing load arms or closes the tasklet. -/
theorem failedLoad_tasklet : ∀ ks, ks = failedLoad wqOk → ∀ k ∈ ks,
    workload.arms k .demoTasklet = false ∧ workload.closes k .demoTasklet = false := by
  rintro ks rfl
  cases wqOk with
  | true => decide
  | false => decide

/-- Each execution of the tasklet is one action. -/
theorem tasklet_last {armed : Component → Bool} {d d' : Data} {l : Place} {a : Act} {c' : Option Component}
    {l' : Option Place} (h : workload.act .demoTasklet armed d l a d' c' l') : l' = none ↔ true = true := by
  cases h with
  | taskletHandler => exact iff_of_true rfl rfl

end Failed

/-- **A failed load of the timer demo.** When a failing `timer_demo_init` has returned, no timer and no work item is
pending or running; and neither is the tasklet, exactly if each time it was scheduled it was started later, and each of
its executions has come to its end. -/
theorem timer_demo_failed_load {I : Type u} [DecidableEq I] (wqOk : Bool)
    (tr : List (WorkEvent I Component Stmt Place Act)) (s : Work I Component Stmt Place Data)
    (h : (timerDemoFailed I wqOk).Run tr s) (hend : s.todo = []) :
    (∀ c, c ≠ .procShow → s.Idle c) ↔
      System.FollowedBy (Workload.armsEvent .demoTasklet) (Workload.startsEvent .demoTasklet) tr ∧
      System.FollowedBy (Workload.startsEvent .demoTasklet) (Workload.endsEvent (fun _ => true) .demoTasklet) tr := by
  rw [← Workload.run_armed_iff rfl failedLoad_tasklet h, ← Workload.run_resting_iff rfl tasklet_last h]
  obtain ⟨htimer, hhr, hwork⟩ := others_idle h hend
  constructor
  · intro hall
    exact hall .demoTasklet (by decide)
  · intro htasklet c hc
    cases c with
    | demoTimer => exact htimer
    | hrTimer => exact hhr
    | demoTasklet => exact htasklet
    | demoWork => exact hwork
    | procShow => exact absurd rfl hc

/-- `demo_timer` fires before the file could not be made; the tasklet runs while the timers are being stopped, the work
item when the queue is destroyed. -/
def fireRunFail : List (WorkEvent Unit Component Stmt Place Act) :=
  [.control .addTimer, .control .hrtimerStart, .start () .demoTimer .timerEntry, .act () .demoTimer .inc none,
    .act () .demoTimer .taskletSchedule (some .demoTasklet), .act () .demoTimer .queueWork (some .demoWork),
    .act () .demoTimer .modTimer (some .demoTimer), .control (.procCreate false), .control .delTimerSync,
    .start () .demoTasklet .taskletHandler, .act () .demoTasklet .inc none, .control .hrtimerCancel,
    .start () .demoWork .workHandler, .act () .demoWork .inc none, .act () .demoWork .wake none,
    .control .destroyWorkqueue, .control .drained]

theorem timer_demo_failed_load_fireRunFail : ∃ s, (timerDemoFailed Unit true).Run fireRunFail s ∧ s.todo = [] ∧
    s.data.taskletCount = 1 ∧ s.Idle .demoTimer ∧ s.Idle .hrTimer ∧ s.Idle .demoTasklet ∧ s.Idle .demoWork := by
  have hrun : (timerDemoFailed Unit true).Run fireRunFail _ :=
    ⟨loaded false, loaded_init false,
      .cons (.quiet rfl (fun _ => rfl) (.inr (by decide))) <| .cons (.quiet rfl (fun _ => rfl) (.inr (by decide))) <|
      .cons (.start rfl rfl rfl (fun _ _ _ h => by cases h)) <| .cons (.act rfl .timerEntry) <|
      .cons (.act rfl .taskletSchedule) <| .cons (.act rfl .queueWork) <| .cons (.act rfl .modTimer) <|
      .cons (.quiet rfl (fun _ => rfl) (.inr (by decide))) <| .cons (.quiet rfl (fun _ => rfl) (.inl rfl)) <|
      .cons (.start rfl rfl rfl (fun _ _ _ h => by cases h)) <| .cons (.act rfl .taskletHandler) <|
      .cons (.quiet rfl (fun _ => rfl) (.inl rfl)) <|
      .cons (.start rfl rfl rfl (fun _ _ _ h => by cases h)) <| .cons (.act rfl .workHandler) <|
      .cons (.act rfl .workSleep) <| .cons (.quiet rfl (fun _ => rfl) (.inr (by decide))) <|
      .cons (.quiet rfl (fun _ => rfl) (.inr (by decide))) <| .nil _⟩
  have hidle := (timer_demo_failed_load true fireRunFail _ hrun rfl).mpr ⟨by decide, by decide⟩
  exact ⟨_, hrun, rfl, rfl, hidle _ (by decide), hidle _ (by decide), hidle _ (by decide), hidle _ (by decide)⟩

/-- `demo_timer` fires before the file could not be made; the work item runs, the tasklet does not. -/
def fireThenFail : List (WorkEvent Unit Component Stmt Place Act) :=
  [.control .addTimer, .control .hrtimerStart, .start () .demoTimer .timerEntry, .act () .demoTimer .inc none,
    .act () .demoTimer .taskletSchedule (some .demoTasklet), .act () .demoTimer .queueWork (some .demoWork),
    .act () .demoTimer .modTimer (some .demoTimer), .control (.procCreate false), .control .delTimerSync,
    .control .hrtimerCancel, .start () .demoWork .workHandler, .act () .demoWork .inc none,
    .act () .demoWork .wake none, .control .destroyWorkqueue, .control .drained]

/-- It does not wait for the tasklet, which can be scheduled when it has returned. -/
theorem timer_demo_failed_load_scheduled : ∃ s, (timerDemoFailed Unit true).Run fireThenFail s ∧ s.todo = [] ∧
    s.armed .demoTasklet = true := by
  have hrun : (timerDemoFailed Unit true).Run fireThenFail _ :=
    ⟨loaded false, loaded_init false,
      .cons (.quiet rfl (fun _ => rfl) (.inr (by decide))) <| .cons (.quiet rfl (fun _ => rfl) (.inr (by decide))) <|
      .cons (.start rfl rfl rfl (fun _ _ _ h => by cases h)) <| .cons (.act rfl .timerEntry) <|
      .cons (.act rfl .taskletSchedule) <| .cons (.act rfl .queueWork) <| .cons (.act rfl .modTimer) <|
      .cons (.quiet rfl (fun _ => rfl) (.inr (by decide))) <| .cons (.quiet rfl (fun _ => rfl) (.inl rfl)) <|
      .cons (.quiet rfl (fun _ => rfl) (.inl rfl)) <|
      .cons (.start rfl rfl rfl (fun _ _ _ h => by cases h)) <| .cons (.act rfl .workHandler) <|
      .cons (.act rfl .workSleep) <| .cons (.quiet rfl (fun _ => rfl) (.inr (by decide))) <|
      .cons (.quiet rfl (fun _ => rfl) (.inr (by decide))) <| .nil _⟩
  exact ⟨_, hrun, rfl, rfl⟩

end KernelModules.Teardown.TimerDemo
