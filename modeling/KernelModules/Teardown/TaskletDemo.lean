import KernelModules.Lib.CString
import KernelModules.Lib.Deferred

/-!
# Unloading the tasklet demo

The timer schedules the tasklets and arms itself again; a write of 1 or 2 to `/proc/tasklet_demo` schedules one of them
too. `demo_tasklet_exit` deletes the timer, waits for both tasklets and removes the file last, so a write in between
schedules a tasklet that nobody waits for (`demo_tasklet_left_scheduled`). Without such a write timer and tasklets are
idle once the exit has returned (`demo_tasklet_teardown`).
-/

namespace KernelModules.Teardown.TaskletDemo

open Lib

universe u

/-! ## The code -/

inductive Component
  | taskletTimer
  | normalTasklet
  | hiTasklet
  /-- The write handler of `/proc/tasklet_demo`. -/
  | procWrite
deriving DecidableEq, Repr

instance : Fintype Component where
  elems := {.taskletTimer, .normalTasklet, .hiTasklet, .procWrite}
  complete c := by cases c <;> decide

/-- The statements of `demo_tasklet_init` that start something, and those of `demo_tasklet_exit`. -/
inductive Stmt
  | modTimer
  | procCreate (ok : Bool)
  | delTimerSync
  | killNormal
  | killHi
  | procRemove
deriving DecidableEq, Repr

/-- The static `counter` of the timer and the two counts of the tasklets. -/
structure Data where
  counter : Int32
  normalCount : Int32
  hiCount : Int32

inductive Place
  /-- `schedule_tasklet_timer`, at `counter++`. -/
  | count
  /-- At `tasklet_hi_schedule`. -/
  | hiSchedule
  /-- At `tasklet_schedule`. -/
  | schedule
  /-- At `mod_timer`. -/
  | rearm
  /-- A tasklet's handler. -/
  | handler
  /-- `tasklet_proc_write` with what the process writes. -/
  | write (w : UserText)
  /-- At its `switch`. -/
  | switch (value : Int32) (count : Nat)

inductive Act
  | count
  | schedule
  | rearm
  | handled
  | parsed (value : Int32)
  | ret (ret : Int)

/-- One action of a handler. -/
inductive Action : Component → (Component → Bool) → Data → Place → Act → Data → Option Component → Option Place → Prop
  | count {armed : Component → Bool} {d : Data} :
      Action .taskletTimer armed d .count .count { d with counter := d.counter + 1 } none
        (some (if (d.counter + 1) % 2 = 0 then .hiSchedule else .schedule))
  | hiSchedule {armed : Component → Bool} {d : Data} :
      Action .taskletTimer armed d .hiSchedule .schedule d (some .hiTasklet) (some .schedule)
  | schedule {armed : Component → Bool} {d : Data} :
      Action .taskletTimer armed d .schedule .schedule d (some .normalTasklet) (some .rearm)
  | rearm {armed : Component → Bool} {d : Data} :
      Action .taskletTimer armed d .rearm .rearm d (some .taskletTimer) none
  | normal {armed : Component → Bool} {d : Data} :
      Action .normalTasklet armed d .handler .handled { d with normalCount := d.normalCount + 1 } none none
  | hi {armed : Component → Bool} {d : Data} :
      Action .hiTasklet armed d .handler .handled { d with hiCount := d.hiCount + 1 } none none
  | refused {armed : Component → Bool} {d : Data} {w : UserText} {err : Int} : userInt 8 w = .error err →
      Action .procWrite armed d (.write w) (.ret err) d none none
  | parsed {armed : Component → Bool} {d : Data} {w : UserText} {value : Int32} : userInt 8 w = .ok value →
      Action .procWrite armed d (.write w) (.parsed value) d none (some (.switch value w.count))
  | one {armed : Component → Bool} {d : Data} {count : Nat} :
      Action .procWrite armed d (.switch 1 count) (.ret count) d (some .normalTasklet) none
  | two {armed : Component → Bool} {d : Data} {count : Nat} :
      Action .procWrite armed d (.switch 2 count) (.ret count) d (some .hiTasklet) none
  | other {armed : Component → Bool} {d : Data} {value : Int32} {count : Nat} : value ≠ 1 → value ≠ 2 →
      Action .procWrite armed d (.switch value count) (.ret (-eInval)) d none none

def workload : Workload Component Stmt Place Act Data where
  arms
    | .modTimer, .taskletTimer => true
    | .procCreate ok, .procWrite => ok
    | _, _ => false
  closes
    | .delTimerSync, .taskletTimer => true
    | .killNormal, .normalTasklet => true
    | .killHi, .hiTasklet => true
    | .procRemove, .procWrite => true
    | _, _ => false
  -- `tasklet_kill` waits until the tasklet has run
  cancels
    | .delTimerSync => true
    | .procRemove => true
    | _ => false
  keeps
    | .procWrite => true
    | _ => false
  serial
    | .procWrite => false
    | _ => true
  start
    | .taskletTimer, l => l = .count
    | .normalTasklet, l => l = .handler
    | .hiTasklet, l => l = .handler
    | .procWrite, l => ∃ w, l = .write w
  act := Action

/-- `demo_tasklet_init`, which does not look whether the file could be made, then `demo_tasklet_exit`. -/
def program (procOk : Bool) : List Stmt :=
  [.modTimer, .procCreate procOk, .delTimerSync, .killNormal, .killHi, .procRemove]

/-- Loading, any firings, executions and writes in any contexts, and unloading. -/
def taskletDemo (I : Type u) [DecidableEq I] :
    System (Work I Component Stmt Place Data) (WorkEvent I Component Stmt Place Act) :=
  workload.system ⟨0, 0, 0⟩ fun ks => ∃ procOk, ks = program procOk

/-! ## Unloading -/

def isWrite : Component → Bool
  | .procWrite => true
  | _ => false

/-- What the timer arms. -/
def sources : Component → Component → Bool
  | .taskletTimer, .taskletTimer => true
  | .taskletTimer, .normalTasklet => true
  | .taskletTimer, .hiTasklet => true
  | _, _ => false

theorem action_sources {c c' : Component} {armed : Component → Bool} {d d' : Data} {l : Place} {a : Act}
    {l' : Option Place} (h : workload.act c armed d l a d' (some c') l') : isWrite c = true ∨ sources c c' = true := by
  cases h with
  | hiSchedule => exact .inr rfl
  | schedule => exact .inr rfl
  | rearm => exact .inr rfl
  | one => exact .inl rfl
  | two => exact .inl rfl

theorem program_ordered : ∀ ks, (∃ procOk, ks = program procOk) → workload.Ordered sources (fun _ => false) ks := by
  rintro ks ⟨procOk, rfl⟩
  cases procOk with
  | true => decide
  | false => decide

/-- What the program closes is idle when it has ended. -/
theorem run_idle {I : Type u} [DecidableEq I] {tr : List (WorkEvent I Component Stmt Place Act)}
    {s : Work I Component Stmt Place Data} (h : ((taskletDemo I).restrict (workload.Timely isWrite)).Run tr s)
    (hend : s.todo = []) {c : Component} {k : Stmt} (hk : ∀ procOk, k ∈ program procOk)
    (hc : workload.closes k c = true) : s.Idle c := by
  refine Workload.run_finished program_ordered action_sources ?_ hc h hend
  rintro ks ⟨procOk, rfl⟩
  exact hk procOk

/-- **Unloading the tasklet demo.** If no write schedules a tasklet after the `tasklet_kill` of this tasklet has
returned, then both tasklets are neither scheduled nor running and the timer is not pending once `demo_tasklet_exit`
has returned. -/
theorem demo_tasklet_teardown {I : Type u} [DecidableEq I] (tr : List (WorkEvent I Component Stmt Place Act))
    (s : Work I Component Stmt Place Data) (h : ((taskletDemo I).restrict (workload.Timely isWrite)).Run tr s)
    (hexit : s.todo = []) : s.Idle .normalTasklet ∧ s.Idle .hiTasklet ∧ s.Idle .taskletTimer := by
  exact ⟨run_idle h hexit (k := .killNormal) (by decide) rfl, run_idle h hexit (k := .killHi) (by decide) rfl,
    run_idle h hexit (k := .delTimerSync) (by decide) rfl⟩

/-- No handler runs and the program is at its start. -/
def loaded : Work Unit Component Stmt Place Data := ⟨⟨0, 0, 0⟩, fun _ => false, fun _ => none, [], program true⟩

theorem loaded_init : (taskletDemo Unit).init loaded := ⟨rfl, fun _ => rfl, fun _ => rfl, rfl, true, rfl⟩

/-- The text `1`. -/
def writeOne : UserText := ⟨fun _ => 49, 1, 1⟩

theorem writeOne_value : userInt 8 writeOne = .ok 1 := by decide

/-- A write schedules the normal tasklet, which runs before the module is unloaded. -/
def writeThenExit : List (WorkEvent Unit Component Stmt Place Act) :=
  [.control .modTimer, .control (.procCreate true), .start () .procWrite (.write writeOne),
    .act () .procWrite (.parsed 1) none, .act () .procWrite (.ret 1) (some .normalTasklet),
    .start () .normalTasklet .handler, .act () .normalTasklet .handled none, .control .delTimerSync,
    .control .killNormal, .control .killHi, .control .procRemove]

theorem demo_tasklet_teardown_writeThenExit :
    ∃ s, ((taskletDemo Unit).restrict (workload.Timely isWrite)).Run writeThenExit s ∧ s.todo = [] ∧
      s.Idle .normalTasklet ∧ s.Idle .hiTasklet ∧ s.Idle .taskletTimer := by
  have hrun : ((taskletDemo Unit).restrict (workload.Timely isWrite)).Run writeThenExit _ :=
    ⟨loaded, loaded_init,
      .cons ⟨.quiet rfl (fun _ => rfl) (.inr (by decide)), trivial⟩ <|
      .cons ⟨.quiet rfl (fun _ => rfl) (.inr (by decide)), trivial⟩ <|
      .cons ⟨.start rfl rfl ⟨writeOne, rfl⟩ (by simp [workload]), trivial⟩ <|
      .cons ⟨.act rfl (.parsed writeOne_value), trivial⟩ <| .cons ⟨.act rfl .one, fun _ => rfl⟩ <|
      .cons ⟨.start rfl rfl rfl (fun _ _ _ h => by cases h), trivial⟩ <| .cons ⟨.act rfl .normal, trivial⟩ <|
      .cons ⟨.quiet rfl (fun _ => rfl) (.inl rfl), trivial⟩ <|
      .cons ⟨.quiet rfl (fun _ => rfl) (.inr (by decide)), trivial⟩ <|
      .cons ⟨.quiet rfl (fun _ => rfl) (.inr (by decide)), trivial⟩ <|
      .cons ⟨.quiet rfl (fun _ => rfl) (.inl rfl), trivial⟩ <| .nil _⟩
  exact ⟨_, hrun, rfl, demo_tasklet_teardown _ _ hrun rfl⟩

/-- A write comes after the `tasklet_kill` of the normal tasklet and before `proc_remove`. -/
def writeDuringExit : List (WorkEvent Unit Component Stmt Place Act) :=
  [.control .modTimer, .control (.procCreate true), .control .delTimerSync, .control .killNormal,
    .start () .procWrite (.write writeOne), .act () .procWrite (.parsed 1) none,
    .act () .procWrite (.ret 1) (some .normalTasklet), .control .killHi, .control .procRemove]

/-- The exit has returned and the tasklet is scheduled. -/
theorem demo_tasklet_left_scheduled : ∃ s, (taskletDemo Unit).Run writeDuringExit s ∧ s.todo = [] ∧
    s.armed .normalTasklet = true ∧ ¬s.Idle .normalTasklet := by
  have hrun : (taskletDemo Unit).Run writeDuringExit _ :=
    ⟨loaded, loaded_init,
      .cons (.quiet rfl (fun _ => rfl) (.inr (by decide))) <| .cons (.quiet rfl (fun _ => rfl) (.inr (by decide))) <|
      .cons (.quiet rfl (fun _ => rfl) (.inl rfl)) <| .cons (.quiet rfl (fun _ => rfl) (.inr (by decide))) <|
      .cons (.start rfl rfl ⟨writeOne, rfl⟩ (by simp [workload])) <|
      .cons (.act rfl (.parsed writeOne_value)) <| .cons (.act rfl .one) <|
      .cons (.quiet rfl (fun _ => rfl) (.inr (by decide))) <| .cons (.quiet rfl (fun _ => rfl) (.inl rfl)) <| .nil _⟩
  refine ⟨_, hrun, rfl, rfl, fun hidle => ?_⟩
  cases hidle.1

end KernelModules.Teardown.TaskletDemo
