import KernelModules.Lib.Deferred

/-!
# Unloading the work queue demo

`work_timer` queues `demo_work` on the system's queue and on the module's own in turn and arms itself again;
`delayed_work` waits for its timer, is queued, and schedules itself again when it runs. `work_exit` stops the timer,
cancels both, destroys the queue and removes the file: everything is idle when it has returned, and nothing is queued on
the queue after its destruction has begun (`work_queue_teardown`).
-/

namespace KernelModules.Teardown.WorkQueueDemo

open Lib

universe u

/-! ## The code -/

inductive Queue
  | system
  | custom
deriving DecidableEq, Repr

inductive Component
  | workTimer
  /-- `demo_work` on a queue. It is pending on one of them at most, but may run on one and be pending on the other. -/
  | demoWork (q : Queue)
  /-- The timer inside `delayed_work`, whose function queues the work item. -/
  | delayedTimer
  | delayedWork
  /-- The read handler of `/proc/work_demo`. -/
  | procShow
deriving DecidableEq, Repr

instance : Fintype Component where
  elems := {.workTimer, .demoWork .system, .demoWork .custom, .delayedTimer, .delayedWork, .procShow}
  complete c := by
    cases c with
    | demoWork q => cases q <;> decide
    | _ => decide

/-- The statements of `work_init` that start something, and those of `work_exit`. `destroy_workqueue` begins, then
drains the queue. -/
inductive Stmt
  | scheduleDelayedWork
  | modTimer
  | procCreate (ok : Bool)
  | delTimerSync
  | cancelWorkSync
  | cancelDelayedWorkSync
  | destroyWorkqueue
  | drained
  | procRemove
deriving DecidableEq, Repr

/-- The static `counter` of the timer and the two counts of the handlers. -/
structure Data where
  counter : Int32
  workCount : Int32
  delayedCount : Int32

inductive Place
  /-- `schedule_work_timer`, at `counter++`. -/
  | count
  /-- At `schedule_work` or `queue_work`. -/
  | queueWork (q : Queue)
  /-- At `mod_timer`. -/
  | modTimer
  | workHandler
  /-- `demo_work_handler`, in `msleep`. -/
  | workSleep
  /-- The function of the timer in `delayed_work`. -/
  | timerFn
  | delayedHandler
  /-- `delayed_work_handler`, at `schedule_delayed_work`. -/
  | reschedule
  /-- `work_proc_show`, which prints the counts. -/
  | procShow

inductive Act
  | count
  | queueWork (q : Queue)
  | modTimer
  | wake
  | expire
  | reschedule
  | shown

/-- One action of a handler. Queueing a work item that is pending does nothing. -/
inductive Action : Component → (Component → Bool) → Data → Place → Act → Data → Option Component → Option Place → Prop
  | count {armed : Component → Bool} {d : Data} :
      Action .workTimer armed d .count .count { d with counter := d.counter + 1 } none
        (some (.queueWork (if (d.counter + 1) % 2 = 0 then .system else .custom)))
  | queued {armed : Component → Bool} {d : Data} {q : Queue} : (∀ q, armed (.demoWork q) = false) →
      Action .workTimer armed d (.queueWork q) (.queueWork q) d (some (.demoWork q)) (some .modTimer)
  | pending {armed : Component → Bool} {d : Data} {q q' : Queue} : armed (.demoWork q') = true →
      Action .workTimer armed d (.queueWork q) (.queueWork q) d none (some .modTimer)
  | modTimer {armed : Component → Bool} {d : Data} :
      Action .workTimer armed d .modTimer .modTimer d (some .workTimer) none
  | workHandler {armed : Component → Bool} {d : Data} {q : Queue} :
      Action (.demoWork q) armed d .workHandler .count { d with workCount := d.workCount + 1 } none (some .workSleep)
  | workSleep {armed : Component → Bool} {d : Data} {q : Queue} :
      Action (.demoWork q) armed d .workSleep .wake d none none
  | expire {armed : Component → Bool} {d : Data} :
      Action .delayedTimer armed d .timerFn .expire d (some .delayedWork) none
  | delayedHandler {armed : Component → Bool} {d : Data} :
      Action .delayedWork armed d .delayedHandler .count { d with delayedCount := d.delayedCount + 1 } none
        (some .reschedule)
  | reschedule {armed : Component → Bool} {d : Data} : armed .delayedTimer = false → armed .delayedWork = false →
      Action .delayedWork armed d .reschedule .reschedule d (some .delayedTimer) none
  | scheduled {armed : Component → Bool} {d : Data} : armed .delayedTimer = true ∨ armed .delayedWork = true →
      Action .delayedWork armed d .reschedule .reschedule d none none
  | procShow {armed : Component → Bool} {d : Data} : Action .procShow armed d .procShow .shown d none none

def workload : Workload Component Stmt Place Act Data where
  arms
    | .scheduleDelayedWork, .delayedTimer => true
    | .modTimer, .workTimer => true
    | .procCreate ok, .procShow => ok
    | _, _ => false
  closes
    | .delTimerSync, .workTimer => true
    | .cancelWorkSync, .demoWork _ => true
    | .cancelDelayedWorkSync, .delayedTimer => true
    | .cancelDelayedWorkSync, .delayedWork => true
    | .drained, .demoWork .custom => true
    | .procRemove, .procShow => true
    | _, _ => false
  cancels
    | .delTimerSync => true
    | .cancelWorkSync => true
    | .cancelDelayedWorkSync => true
    | .procRemove => true
    | _ => false
  keeps
    | .procShow => true
    | _ => false
  serial
    | .procShow => false
    | _ => true
  start
    | .workTimer, l => l = .count
    | .demoWork _, l => l = .workHandler
    | .delayedTimer, l => l = .timerFn
    | .delayedWork, l => l = .delayedHandler
    | .procShow, l => l = .procShow
  act := Action

/-- `work_init`, which does not look whether the file could be made, then `work_exit`. -/
def program (procOk : Bool) : List Stmt :=
  [.scheduleDelayedWork, .modTimer, .procCreate procOk, .delTimerSync, .cancelWorkSync, .cancelDelayedWorkSync,
    .destroyWorkqueue, .drained, .procRemove]

/-- Loading, any firings, executions and reads in any contexts, and unloading. -/
def workQueueDemo (I : Type u) [DecidableEq I] :
    System (Work I Component Stmt Place Data) (WorkEvent I Component Stmt Place Act) :=
  workload.system ⟨0, 0, 0⟩ fun ks => ∃ procOk, ks = program procOk

/-! ## Unloading -/

/-- What the timers and the delayed work item arm. -/
def sources : Component → Component → Bool
  | .workTimer, .workTimer => true
  | .workTimer, .demoWork _ => true
  | .delayedTimer, .delayedWork => true
  | .delayedWork, .delayedTimer => true
  | _, _ => false

theorem action_sources {c c' : Component} {armed : Component → Bool} {d d' : Data} {l : Place} {a : Act}
    {l' : Option Place} (h : workload.act c armed d l a d' (some c') l') : false = true ∨ sources c c' = true := by
  cases h with
  | queued => exact .inr rfl
  | modTimer => exact .inr rfl
  | expire => exact .inr rfl
  | reschedule => exact .inr rfl

theorem program_ordered : ∀ ks, (∃ procOk, ks = program procOk) → workload.Ordered sources (fun _ => false) ks := by
  rintro ks ⟨procOk, rfl⟩
  cases procOk with
  | true => decide
  | false => decide

section Runs

variable {I : Type u} [DecidableEq I] {tr : List (WorkEvent I Component Stmt Place Act)}
  {s s' : Work I Component Stmt Place Data}

/-- What the program closes is idle when it has ended. -/
theorem run_idle (h : (workQueueDemo I).Run tr s) (hend : s.todo = []) {c : Component} {k : Stmt}
    (hk : ∀ procOk, k ∈ program procOk) (hc : workload.closes k c = true) : s.Idle c := by
  refine Workload.run_finished program_ordered action_sources ?_ hc (Workload.run_restrict h) hend
  rintro ks ⟨procOk, rfl⟩
  exact hk procOk

/-- Only `work_timer` queues work on the module's queue, and it is stopped before the queue is destroyed. -/
theorem queueWork_before (h : (workQueueDemo I).Run tr s) {i : I} {c : Component} {armed : Option Component} {q : Queue}
    (hstep : (workQueueDemo I).step s (.act i c (.queueWork q) armed) s') : .destroyWorkqueue ∉ s.done := by
  intro hdestroy
  obtain ⟨procOk, hprogram⟩ := Workload.run_program h
  have hsplit : program procOk = [.scheduleDelayedWork, .modTimer, .procCreate procOk, .delTimerSync, .cancelWorkSync,
      .cancelDelayedWorkSync] ++ .destroyWorkqueue :: [.drained, .procRemove] := rfl
  have hstopped : .delTimerSync ∈ s.done :=
    Workload.mem_done (hprogram.trans hsplit) hdestroy (by simp) (by simp)
  have hidle : s.Idle .workTimer :=
    Workload.run_idle_of_mem program_ordered action_sources (Workload.run_restrict h) hstopped rfl
  cases hstep with
  | act hactive hact =>
    cases hact with
    | queued => exact hidle.2 _ _ hactive
    | pending => exact hidle.2 _ _ hactive

end Runs

/-- **Unloading the work queue demo.** Once `work_exit` has returned, neither the timer, nor `demo_work` on either
queue, nor `delayed_work` waiting or queued, nor a handler of the file is pending or running; and in no state of any
run is work queued after `destroy_workqueue` has begun. -/
theorem work_queue_teardown {I : Type u} [DecidableEq I] (tr : List (WorkEvent I Component Stmt Place Act))
    (s : Work I Component Stmt Place Data) (h : (workQueueDemo I).Run tr s) :
    (s.todo = [] → ∀ c, s.Idle c) ∧
    (∀ i c q armed s', (workQueueDemo I).step s (.act i c (.queueWork q) armed) s' → .destroyWorkqueue ∉ s.done) := by
  refine ⟨fun hexit c => ?_, fun i c q armed s' hstep => queueWork_before h hstep⟩
  cases c with
  | workTimer => exact run_idle h hexit (k := .delTimerSync) (by decide) rfl
  | demoWork q => exact run_idle h hexit (k := .cancelWorkSync) (by decide) rfl
  | delayedTimer => exact run_idle h hexit (k := .cancelDelayedWorkSync) (by decide) rfl
  | delayedWork => exact run_idle h hexit (k := .cancelDelayedWorkSync) (by decide) rfl
  | procShow => exact run_idle h hexit (k := .procRemove) (by decide) rfl

/-- No handler runs and the program is at its start. -/
def loaded : Work Unit Component Stmt Place Data := ⟨⟨0, 0, 0⟩, fun _ => false, fun _ => none, [], program true⟩

theorem loaded_init : (workQueueDemo Unit).init loaded := ⟨rfl, fun _ => rfl, fun _ => rfl, rfl, true, rfl⟩

/-- The timer queues `demo_work` and the delayed work item is queued when the module is unloaded. -/
def queueThenExit : List (WorkEvent Unit Component Stmt Place Act) :=
  [.control .scheduleDelayedWork, .control .modTimer, .control (.procCreate true), .start () .workTimer .count,
    .act () .workTimer .count none, .act () .workTimer (.queueWork .custom) (some (.demoWork .custom)),
    .act () .workTimer .modTimer (some .workTimer), .start () .delayedTimer .timerFn,
    .act () .delayedTimer .expire (some .delayedWork), .control .delTimerSync, .control .cancelWorkSync,
    .control .cancelDelayedWorkSync, .control .destroyWorkqueue, .control .drained, .control .procRemove]

theorem work_queue_teardown_queueThenExit : ∃ s, (workQueueDemo Unit).Run queueThenExit s ∧ s.todo = [] ∧
    s.Idle .workTimer ∧ s.Idle (.demoWork .custom) ∧ s.Idle .delayedWork := by
  have hrun : (workQueueDemo Unit).Run queueThenExit _ :=
    ⟨loaded, loaded_init,
      .cons (.quiet rfl (fun _ => rfl) (.inr (by decide))) <| .cons (.quiet rfl (fun _ => rfl) (.inr (by decide))) <|
      .cons (.quiet rfl (fun _ => rfl) (.inr (by decide))) <|
      .cons (.start rfl rfl rfl (fun _ _ _ h => by cases h)) <| .cons (.act rfl .count) <|
      .cons (.act rfl (.queued fun q => by cases q <;> rfl)) <| .cons (.act rfl .modTimer) <|
      .cons (.start rfl rfl rfl (fun _ _ _ h => by cases h)) <| .cons (.act rfl .expire) <|
      .cons (.quiet rfl (fun _ => rfl) (.inl rfl)) <| .cons (.quiet rfl (fun _ => rfl) (.inl rfl)) <|
      .cons (.quiet rfl (fun _ => rfl) (.inl rfl)) <| .cons (.quiet rfl (fun _ => rfl) (.inr (by decide))) <|
      .cons (.quiet rfl (fun _ => rfl) (.inr (by decide))) <| .cons (.quiet rfl (fun _ => rfl) (.inl rfl)) <| .nil _⟩
  have hidle := (work_queue_teardown _ _ hrun).1 rfl
  exact ⟨_, hrun, rfl, hidle _, hidle _, hidle _⟩

end KernelModules.Teardown.WorkQueueDemo
