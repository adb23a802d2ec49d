import KernelModules.Lib.Deferred
import KernelModules.Lib.Uaccess

/-!
# Unloading the interrupt demo

Every open of `/proc/timer_irq` arms `my_timer`. `timer_irq_exit` deletes the timer first and removes the file after
that, so an open in between arms a timer that nobody deletes any more (`timer_irq_left_pending`). Without such an open
the timer is idle once the exit has returned (`timer_irq_teardown`).
-/

namespace KernelModules.Teardown.InterruptDemo

open Lib

universe u

/-! ## The code -/

inductive Component
  | myTimer
  /-- The open handler of `/proc/timer_irq`. -/
  | procOpen
deriving DecidableEq, Repr

instance : Fintype Component where
  elems := {.myTimer, .procOpen}
  complete c := by cases c <;> decide

/-- The statements of `timer_irq_init` and `timer_irq_exit`. -/
inductive Stmt
  | procCreate
  | delTimerSync
  | procRemove
deriving DecidableEq, Repr

inductive Place
  /-- `timer_callback`, at `atomic_inc(&interrupt_count)`. -/
  | callback
  /-- `proc_open`, at `mod_timer`. -/
  | modTimer
  /-- `proc_open`, at `single_open`. -/
  | singleOpen

inductive Act
  | inc
  | modTimer
  | singleOpen (ret : Int)

/-- One action of a handler; the data is `interrupt_count`. -/
inductive Action : Component → (Component → Bool) → Int32 → Place → Act → Int32 → Option Component → Option Place → Prop
  | inc {armed : Component → Bool} {interruptCount : Int32} :
      Action .myTimer armed interruptCount .callback .inc (interruptCount + 1) none none
  | modTimer {armed : Component → Bool} {interruptCount : Int32} :
      Action .procOpen armed interruptCount .modTimer .modTimer interruptCount (some .myTimer) (some .singleOpen)
  | singleOpen {armed : Component → Bool} {interruptCount : Int32} (nomem : Bool) :
      Action .procOpen armed interruptCount .singleOpen (.singleOpen (if nomem then -eNomem else 0)) interruptCount none
        none

def workload : Workload Component Stmt Place Act Int32 where
  arms
    | .procCreate, .procOpen => true
    | _, _ => false
  closes
    | .delTimerSync, .myTimer => true
    | .procRemove, .procOpen => true
    | _, _ => false
  cancels
    | .delTimerSync => true
    | .procRemove => true
    | _ => false
  keeps
    | .procOpen => true
    | .myTimer => false
  serial
    | .myTimer => true
    | .procOpen => false
  start
    | .myTimer, l => l = .callback
    | .procOpen, l => l = .modTimer
  act := Action

/-- `timer_irq_init`, then `timer_irq_exit`. -/
def program : List Stmt := [.procCreate, .delTimerSync, .procRemove]

/-- Loading, any opens and firings in any contexts, and unloading. -/
def timerIrq (I : Type u) [DecidableEq I] :
    System (Work I Component Stmt Place Int32) (WorkEvent I Component Stmt Place Act) :=
  workload.system 0 (· = program)

/-! ## Unloading -/

def isOpen : Component → Bool
  | .procOpen => true
  | .myTimer => false

/-- What the other handlers arm: `timer_callback` arms nothing. -/
def sources (_ _ : Component) : Bool := false

theorem action_sources {c c' : Component} {armed : Component → Bool} {d d' : Int32} {l : Place} {a : Act}
    {l' : Option Place} (h : workload.act c armed d l a d' (some c') l') : isOpen c = true ∨ sources c c' = true := by
  cases h with
  | modTimer => exact .inl rfl

theorem program_ordered : ∀ ks, ks = program → workload.Ordered sources (fun _ => false) ks := by
  rintro ks rfl
  decide

/-- **Unloading the interrupt demo.** If no open reaches `mod_timer` after `del_timer_sync` has returned, the timer is
neither pending nor running once `timer_irq_exit` has returned. -/
theorem timer_irq_teardown {I : Type u} [DecidableEq I] (tr : List (WorkEvent I Component Stmt Place Act))
    (s : Work I Component Stmt Place Int32) (h : ((timerIrq I).restrict (workload.Timely isOpen)).Run tr s)
    (hexit : s.todo = []) : s.Idle .myTimer := by
  have hdel : ∀ ks, ks = program → .delTimerSync ∈ ks := by
    rintro ks rfl
    decide
  exact Workload.run_finished program_ordered action_sources hdel rfl h hexit

/-- No handler runs and the program is at its start. -/
def loaded : Work Unit Component Stmt Place Int32 := ⟨0, fun _ => false, fun _ => none, [], program⟩

theorem loaded_init : (timerIrq Unit).init loaded := ⟨rfl, fun _ => rfl, fun _ => rfl, rfl, rfl⟩

/-- The file is opened and the timer is armed before the module is unloaded. -/
def openThenExit : List (WorkEvent Unit Component Stmt Place Act) :=
  [.control .procCreate, .start () .procOpen .modTimer, .act () .procOpen .modTimer (some .myTimer),
    .act () .procOpen (.singleOpen 0) none, .control .delTimerSync, .control .procRemove]

theorem timer_irq_teardown_openThenExit : ∃ s, ((timerIrq Unit).restrict (workload.Timely isOpen)).Run openThenExit s ∧
    s.todo = [] ∧ s.Idle .myTimer := by
  have hrun : ((timerIrq Unit).restrict (workload.Timely isOpen)).Run openThenExit _ :=
    ⟨loaded, loaded_init,
      .cons ⟨.quiet rfl (fun _ => rfl) (.inr (by decide)), trivial⟩ <|
      .cons ⟨.start rfl rfl rfl (by simp [workload]), trivial⟩ <|
      .cons ⟨.act rfl .modTimer, fun _ => rfl⟩ <|
      .cons ⟨.act rfl (.singleOpen false), trivial⟩ <|
      .cons ⟨.quiet rfl (fun _ => rfl) (.inl rfl), trivial⟩ <|
      .cons ⟨.quiet rfl (fun _ => rfl) (.inl rfl), trivial⟩ <| .nil _⟩
  exact ⟨_, hrun, rfl, timer_irq_teardown _ _ hrun rfl⟩

/-- The file is opened between the two statements of `timer_irq_exit`. -/
def openDuringExit : List (WorkEvent Unit Component Stmt Place Act) :=
  [.control .procCreate, .control .delTimerSync, .start () .procOpen .modTimer,
    .act () .procOpen .modTimer (some .myTimer), .act () .procOpen (.singleOpen 0) none, .control .procRemove]

/-- The exit has returned and the timer is pending. -/
theorem timer_irq_left_pending : ∃ s, (timerIrq Unit).Run openDuringExit s ∧ s.todo = [] ∧ s.armed .myTimer = true ∧
    ¬s.Idle .myTimer := by
  have hrun : (timerIrq Unit).Run openDuringExit _ :=
    ⟨loaded, loaded_init,
      .cons (.quiet rfl (fun _ => rfl) (.inr (by decide))) <|
      .cons (.quiet rfl (fun _ => rfl) (.inl rfl)) <|
      .cons (.start rfl rfl rfl (by simp [workload])) <|
      .cons (.act rfl .modTimer) <| .cons (.act rfl (.singleOpen false)) <|
      .cons (.quiet rfl (fun _ => rfl) (.inl rfl)) <| .nil _⟩
  refine ⟨_, hrun, rfl, rfl, fun hidle => ?_⟩
  cases hidle.1

end KernelModules.Teardown.InterruptDemo
