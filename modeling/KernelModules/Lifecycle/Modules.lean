import KernelModules.Lib.Lifecycle

/-!
# What the modules register

The init and exit functions of the modules of the course, as scripts over the names they register (`/proc` entries,
sysfs objects, netlink protocols, device numbers and nodes, interrupt lines, caches, work queues, disks, file systems
and the memory that stays allocated) and over their jobs: timers, tasklets, work items and interrupt threads. A timer
that is armed, a tasklet that is scheduled and a work item that is queued is an active job until it has run and is not
started again. Which jobs the callbacks and the handlers of a file start is in the tables `starts` and `wakes`.

- `modules_balanced_iff`: five modules leave something behind. In two of them it is a registration or memory; in three
  it is a job that a handler or a callback has started and nothing stops afterwards;
- `modules_lifecycle`: all others can be loaded and unloaded in any order.
-/

namespace KernelModules.Lifecycle

open Lib Script

/-- The modules that register anything or have a job. -/
inductive ModuleId
  | procExample | posDemo | sysfsExample | atomicDemo | netlinkExample | spinlockDemo | mutexSemDemo | rwlockDemo
  | deadlockDemo | dataStructuresDemo | interruptDemo | archDemo | threadedIrqDemo | interruptProcessing
  | raisingSoftirqs | taskletPriority | workQueues | jiffiesConversions | basicTimer | timerImplementation | timerDemo
  | ioctlTest | memAllocatorDemo | sharedMemoryDemo | simpleVfs | blockDemo | vmaAllocation | irqTest | processInfo
  deriving DecidableEq

/-- Names that can be registered. Where the kernel makes the name up (device and block majors, addresses), it is given
by the module that asks for it. -/
inductive Resource
  /-- An entry below `/proc`. -/
  | proc (path : List String)
  /-- Memory, by the variable that points to it. -/
  | memory (owner : ModuleId) (what : String)
  | kobject (name : String)
  | sysfsGroup (kobj : String)
  | netlink (protocol : Nat)
  | chrdevRegion (owner : ModuleId)
  | cdev (owner : ModuleId)
  | deviceClass (name : String)
  | device (owner : ModuleId) (cls name : String)
  | irqAction (owner : ModuleId)
  | slabCache (owner : ModuleId) (name : String)
  | workqueue (owner : ModuleId) (name : String)
  | blkdev (owner : ModuleId) (name : String)
  | tagSet (owner : ModuleId)
  | gendisk (owner : ModuleId)
  | addedDisk (owner : ModuleId) (name : String)
  | filesystem (name : String)
  deriving DecidableEq

/-- Jobs, by the variable that describes them. -/
inductive Job
  | timer (owner : ModuleId) (name : String)
  | hrtimer (owner : ModuleId) (name : String)
  | tasklet (owner : ModuleId) (name : String)
  | work (owner : ModuleId) (name : String)
  | delayedWork (owner : ModuleId) (name : String)
  | irqThread (owner : ModuleId)
  deriving DecidableEq

open Resource ModuleId Job

/-- The entries below a `/proc` directory. -/
def below : Resource → Resource → Bool
  | proc path, proc dir => dir.length < path.length && dir.isPrefixOf path
  | _, _ => false

/-- What must not be released while a resource is registered: a parent, a class or a number, and what the handlers
behind a name work on. -/
def uses : Resource → Resource → Bool
  | proc path, proc dir => below (proc path) (proc dir)
  | proc path, memory owner _ =>
    (path = ["hello_proc"] && owner = procExample) || (path = ["data_structures"] && owner = dataStructuresDemo)
  | proc path, slabCache owner _ => path = ["mem_allocator_demo"] && owner = memAllocatorDemo
  | sysfsGroup kobj, kobject name => kobj = name
  | cdev owner, chrdevRegion owner' => owner = owner'
  | cdev owner, memory owner' _ => owner = owner'
  | device _ cls _, deviceClass name => cls = name
  | device owner _ _, chrdevRegion owner' => owner = owner'
  | tagSet owner, memory owner' what => owner = owner' && what = "Device"
  | gendisk owner, tagSet owner' => owner = owner'
  | addedDisk owner _, gendisk owner' => owner = owner'
  | addedDisk owner _, memory owner' _ => owner = owner'
  | addedDisk owner _, blkdev owner' _ => owner = owner'
  | _, _ => false

/-- A timer may queue work on the queue of its module, and the work item may be queued there. -/
def needs : Job → Resource → Bool
  | timer owner _, workqueue owner' _ => owner = owner'
  | work owner _, workqueue owner' _ => owner = owner'
  | _, _ => false

/-- `destroy_workqueue` waits for what is queued there, and `free_irq` for the thread. The work item of
`work_queues.c` may be queued elsewhere. -/
def drains : Resource → Job → Bool
  | workqueue timerDemo _, work timerDemo _ => true
  | irqAction owner, irqThread owner' => owner = owner'
  | _, _ => false

/-- Opening `/proc/timer_irq` arms the timer, writing to `/proc/tasklet_demo` schedules a tasklet, and an interrupt
wakes the thread of its line. -/
def wakes : Resource → List Job
  | proc ["timer_irq"] => [timer interruptDemo "my_timer"]
  | proc ["tasklet_demo"] => [tasklet taskletPriority "normal_tasklet", tasklet taskletPriority "hi_tasklet"]
  | irqAction owner => [irqThread owner]
  | _ => []

/-- What the callbacks and handlers start. All timers but that of `interrupt_demo.c` arm themselves again. -/
def starts : Job → List Job
  | timer interruptDemo _ => []
  | timer interruptProcessing name => [timer interruptProcessing name, work interruptProcessing "bottom_half_work"]
  | timer taskletPriority name =>
    [timer taskletPriority name, tasklet taskletPriority "normal_tasklet", tasklet taskletPriority "hi_tasklet"]
  | timer workQueues name => [timer workQueues name, work workQueues "demo_work"]
  | timer timerDemo name => [timer timerDemo name, tasklet timerDemo "demo_tasklet", work timerDemo "demo_work"]
  | timer owner name => [timer owner name]
  | hrtimer owner name => [hrtimer owner name]
  | delayedWork owner name => [delayedWork owner name]
  | _ => []

def rules : Rules Resource Job := ⟨uses, below, needs, drains, wakes, starts⟩

abbrev Code := Script Resource Job

/-- `return -ENOMEM`. -/
def enomem : Code := done (.error 12)

/-! ## Modules with one `/proc` entry -/

/-- The entry is created, and its absence reported. -/
def checkedEntry (name : String) : Code := acquire (proc [name]) enomem <| done .ok

/-- The entry is created, and its absence not noticed. -/
def uncheckedEntry (name : String) : Code := try_ (proc [name]) <| done .ok

/-- `proc_remove` of an entry that was checked. -/
def removeEntry (name : String) : Code := release (proc [name]) <| done .ok

/-- `proc_remove` of an entry that may be `NULL`. -/
def removeEntryIf (name : String) : Code := releaseIf (proc [name]) <| done .ok

def posDemoInit : Code := checkedEntry "virtual_log"
def posDemoExit : Code := removeEntry "virtual_log"
def spinlockInit : Code := checkedEntry "spinlock_demo"
def spinlockExit : Code := removeEntry "spinlock_demo"
def deadlockInit : Code := checkedEntry "deadlock_demo"
def deadlockExit : Code := removeEntry "deadlock_demo"
def archDemoInit : Code := checkedEntry "arch_demo"
def archDemoExit : Code := removeEntry "arch_demo"
def processInfoInit : Code := checkedEntry "process_info"
def processInfoExit : Code := removeEntry "process_info"

/-! ## Timers and what they start -/

/-- Opening the file arms the timer, so it is only initialised here. -/
def timerIrqInit : Code := setup (timer interruptDemo "my_timer") <| checkedEntry "timer_irq"
def timerIrqExit : Code := stop (timer interruptDemo "my_timer") <| removeEntry "timer_irq"

/-- A timer is armed and an entry created. -/
def armedEntry (t : Job) (name : String) : Code := setup t <| start t <| uncheckedEntry name

def demoSoftirqInit : Code := armedEntry (timer raisingSoftirqs "softirq_timer") "softirq_demo"
def demoSoftirqExit : Code := stop (timer raisingSoftirqs "softirq_timer") <| removeEntryIf "softirq_demo"
def timeInit : Code := armedEntry (timer jiffiesConversions "time_timer") "time_demo"
def timeExit : Code := stop (timer jiffiesConversions "time_timer") <| removeEntryIf "time_demo"

/-- `test_init` and `test_exit` of `irq_test.c`. -/
def testInit : Code := armedEntry (timer irqTest "test_timer") "irq_test"
def testExit : Code := stop (timer irqTest "test_timer") <| removeEntryIf "irq_test"

/-- `timer_init` and `timer_exit` of `basic_timer.c`. -/
def timerInit : Code := setup (timer basicTimer "demo_timer") <| start (timer basicTimer "demo_timer") <| done .ok
def timerExit : Code := stop (timer basicTimer "demo_timer") <| done .ok

/-- `demo_init` and `demo_exit` of `interrupt_processing.c`. -/
def demoInit : Code :=
  setup (work interruptProcessing "bottom_half_work") <|
  armedEntry (timer interruptProcessing "irq_simulator") "top_bottom_demo"

def demoExit : Code :=
  stop (timer interruptProcessing "irq_simulator") <| stop (work interruptProcessing "bottom_half_work") <|
  removeEntryIf "top_bottom_demo"

def demoTaskletInit : Code :=
  setup (tasklet taskletPriority "normal_tasklet") <| setup (tasklet taskletPriority "hi_tasklet") <|
  armedEntry (timer taskletPriority "tasklet_timer") "tasklet_demo"

/-- The entry is removed behind the tasklets. -/
def demoTaskletExit : Code :=
  stop (timer taskletPriority "tasklet_timer") <| stop (tasklet taskletPriority "normal_tasklet") <|
  stop (tasklet taskletPriority "hi_tasklet") <| removeEntryIf "tasklet_demo"

def simpleTimerInit : Code :=
  acquire (proc ["simple_timer"]) enomem <|
  setup (timer timerImplementation "periodic_timer") <| start (timer timerImplementation "periodic_timer") <|
  setup (hrtimer timerImplementation "hr_timer") <| start (hrtimer timerImplementation "hr_timer") <|
  done .ok

/-- What is removed is the entry that the exit function itself has asked for. -/
def simpleTimerExit : Code :=
  stop (timer timerImplementation "periodic_timer") <| stop (hrtimer timerImplementation "hr_timer") <|
  acquire (proc ["simple_timer"]) (done .ok) <| release (proc ["simple_timer"]) <| done .ok

/-! ## Other `/proc` and sysfs modules -/

/-- `proc_init` and `proc_exit` of `proc_example.c`. -/
def procInit : Code :=
  acquire (memory procExample "kernel_buffer") enomem <|
  acquire (proc ["hello_proc"]) (release (memory procExample "kernel_buffer") enomem) <|
  done .ok

def procExit : Code :=
  release (proc ["hello_proc"]) <| release (memory procExample "kernel_buffer") <| done .ok

def sysfsExampleInit : Code :=
  acquire (kobject "kernel_course") enomem <|
  acquire (sysfsGroup "kernel_course") (release (kobject "kernel_course") <| done .last) <|
  done .ok

def sysfsExampleExit : Code :=
  release (sysfsGroup "kernel_course") <| release (kobject "kernel_course") <| done .ok

/-- A directory, all its entries, and then a look whether they are there. -/
def directoryInit (dir : String) (entries : List String) : Code :=
  acquire (proc [dir]) enomem <|
  entries.foldr (fun name next => try_ (proc [dir, name]) next) <|
  branch (entries.map fun name => proc [dir, name]) (done .ok) <|
  releaseTree (proc [dir]) enomem

def directoryExit (dir : String) : Code := releaseTree (proc [dir]) <| done .ok

def atomicComprehensiveInit : Code := directoryInit "atomic_demo" ["basic", "advanced", "bits", "status"]
def atomicComprehensiveExit : Code := directoryExit "atomic_demo"
def mutexSemInit : Code := directoryInit "sync_demo" ["mutex", "semaphore", "status"]
def mutexSemExit : Code := directoryExit "sync_demo"

def rwLockInit : Code :=
  acquire (proc ["rwlock_reader"]) enomem <|
  acquire (proc ["rwlock_writer"]) (release (proc ["rwlock_reader"]) enomem) <|
  done .ok

def rwLockExit : Code := release (proc ["rwlock_reader"]) <| release (proc ["rwlock_writer"]) <| done .ok

/-- The nodes that the init function allocates, in this order. -/
def dataStructuresNodes : List Resource :=
  ["high_priority", "normal_task", "alice", "bob", "[100, 200]", "[300, 400]"].map (memory dataStructuresDemo)

/-- Neither a node that is missing nor, if the entry fails, those that are there are looked at. -/
def dataStructuresInit : Code :=
  dataStructuresNodes.foldr try_ <| checkedEntry "data_structures"

def dataStructuresExit : Code :=
  release (proc ["data_structures"]) <| dataStructuresNodes.foldr releaseIf <| done .ok

/-! ## Sockets, interrupts, queues and caches -/

def netlinkExampleInit : Code := acquire (netlink 31) enomem <| done .ok
def netlinkExampleExit : Code := releaseIf (netlink 31) <| done .ok

/-- `my_init` of `threaded_irq_demo.c`; a line that cannot be had is reported as `-1`. -/
def myInit : Code :=
  acquire (irqAction threadedIrqDemo) (done (.error 1)) <|
  acquire (proc ["advanced_threaded_irq_demo"]) (release (irqAction threadedIrqDemo) enomem) <|
  done .ok

def myExit : Code :=
  release (proc ["advanced_threaded_irq_demo"]) <| stop (irqThread threadedIrqDemo) <|
  release (irqAction threadedIrqDemo) <| done .ok

def workInit : Code :=
  setup (work workQueues "demo_work") <| setup (delayedWork workQueues "delayed_work") <|
  acquire (workqueue workQueues "demo_wq") enomem <|
  start (delayedWork workQueues "delayed_work") <|
  armedEntry (timer workQueues "work_timer") "work_demo"

def workExit : Code :=
  stop (timer workQueues "work_timer") <| stop (work workQueues "demo_work") <|
  stop (delayedWork workQueues "delayed_work") <| release (workqueue workQueues "demo_wq") <| removeEntryIf "work_demo"

/-- If the entry cannot be created, the timers are stopped and the queue is destroyed, but the tasklet is not killed. -/
def timerDemoInit : Code :=
  acquire (workqueue timerDemo "demo_wq") enomem <|
  setup (tasklet timerDemo "demo_tasklet") <| setup (work timerDemo "demo_work") <|
  setup (timer timerDemo "demo_timer") <| start (timer timerDemo "demo_timer") <|
  setup (hrtimer timerDemo "hr_timer") <| start (hrtimer timerDemo "hr_timer") <|
  acquire (proc ["timer_demo"])
    (stop (timer timerDemo "demo_timer") <| stop (hrtimer timerDemo "hr_timer") <|
      release (workqueue timerDemo "demo_wq") enomem) <|
  done .ok

/-- `flush_workqueue` waits for the work item. -/
def timerDemoExit : Code :=
  release (proc ["timer_demo"]) <| stop (timer timerDemo "demo_timer") <| stop (hrtimer timerDemo "hr_timer") <|
  stop (tasklet timerDemo "demo_tasklet") <| stop (work timerDemo "demo_work") <|
  release (workqueue timerDemo "demo_wq") <| done .ok

def memAllocatorDemoInit : Code :=
  acquire (slabCache memAllocatorDemo "demo_object_cache") enomem <|
  acquire (proc ["mem_allocator_demo"]) (release (slabCache memAllocatorDemo "demo_object_cache") enomem) <|
  done .ok

def memAllocatorDemoExit : Code :=
  release (proc ["mem_allocator_demo"]) <| releaseIf (slabCache memAllocatorDemo "demo_object_cache") <| done .ok

/-! ## Character devices -/

def ioctlDemoInit : Code :=
  acquire (chrdevRegion ioctlTest) (done .last) <|
  acquire (deviceClass "ioctl_demo_class") (release (chrdevRegion ioctlTest) <| done .last) <|
  acquire (cdev ioctlTest)
    (release (deviceClass "ioctl_demo_class") <| release (chrdevRegion ioctlTest) <| done .last) <|
  acquire (device ioctlTest "ioctl_demo_class" "ioctl_demo")
    (release (cdev ioctlTest) <| release (deviceClass "ioctl_demo_class") <| release (chrdevRegion ioctlTest) <|
      done .last) <|
  done .ok

def ioctlDemoExit : Code :=
  releaseIf (device ioctlTest "ioctl_demo_class" "ioctl_demo") <| release (cdev ioctlTest) <|
  releaseIf (deviceClass "ioctl_demo_class") <| release (chrdevRegion ioctlTest) <| done .ok

section CharDevice

variable (owner : ModuleId) (dev buffer name : String)

/-- The labels of the two character devices with a buffer, from the last to the first. -/
def errFreeDevice (ret : Ret) : Code := release (memory owner dev) <| done ret
def errFreeBuffer (ret : Ret) : Code := release (memory owner buffer) <| errFreeDevice owner dev ret
def errUnregisterChrdev (ret : Ret) : Code := release (chrdevRegion owner) <| errFreeBuffer owner dev buffer ret
def errCdevDel (ret : Ret) : Code := release (cdev owner) <| errUnregisterChrdev owner dev buffer ret
def errClassDestroy (ret : Ret) : Code := release (deviceClass name) <| errCdevDel owner dev buffer ret

def charDeviceInit : Code :=
  acquire (memory owner dev) enomem <|
  acquire (memory owner buffer) (errFreeDevice owner dev (.error 12)) <|
  acquire (chrdevRegion owner) (errFreeBuffer owner dev buffer .last) <|
  acquire (cdev owner) (errUnregisterChrdev owner dev buffer .last) <|
  acquire (deviceClass name) (errCdevDel owner dev buffer .last) <|
  acquire (device owner name name) (errClassDestroy owner dev buffer name .last) <|
  done .ok

/-- The exit functions go through all labels. -/
def charDeviceExit : Code := release (device owner name name) <| errClassDestroy owner dev buffer name .ok

end CharDevice

def sharedMemoryDemoInit : Code := charDeviceInit sharedMemoryDemo "demo_device" "shared_buffer" "shared_mem"
def sharedMemoryDemoExit : Code := charDeviceExit sharedMemoryDemo "demo_device" "shared_buffer" "shared_mem"

def simpleVmaInit : Code := charDeviceInit vmaAllocation "vma_dev" "buffer" "simple_vma"

/-- Only if there is a device. -/
def simpleVmaExit : Code :=
  branch [memory vmaAllocation "vma_dev"] (charDeviceExit vmaAllocation "vma_dev" "buffer" "simple_vma") <| done .ok

/-! ## The block device and the file system -/

def outFreeDev (ret : Ret) : Code := release (memory blockDemo "Device") <| done ret
def outFreeData (ret : Ret) : Code := release (memory blockDemo "data") <| outFreeDev ret
def outUnregBlk (ret : Ret) : Code := release (blkdev blockDemo "simple_block") <| outFreeData ret
def outFreeTagSet (ret : Ret) : Code := release (tagSet blockDemo) <| outUnregBlk ret
def outCleanupDisk (ret : Ret) : Code := release (gendisk blockDemo) <| outFreeTagSet ret

def simpleBlockInit : Code :=
  acquire (memory blockDemo "Device") enomem <|
  acquire (memory blockDemo "data") (outFreeDev (.error 12)) <|
  acquire (blkdev blockDemo "simple_block") (outFreeData .last) <|
  acquire (tagSet blockDemo) (outUnregBlk .last) <|
  acquire (gendisk blockDemo) (outFreeTagSet .last) <|
  acquire (addedDisk blockDemo "simple_block") (outCleanupDisk .last) <|
  done .ok

def simpleBlockExit : Code :=
  branch [memory blockDemo "Device"] (release (addedDisk blockDemo "simple_block") <| outCleanupDisk .ok) <| done .ok

def exampleVfsInit : Code := acquire (filesystem "example_vfs") (done .last) <| done .ok
def exampleVfsExit : Code := release (filesystem "example_vfs") <| done .ok

/-! ## All modules -/

def modules : ModuleId → Module Resource Job
  | procExample => ⟨procInit, procExit⟩
  | posDemo => ⟨posDemoInit, posDemoExit⟩
  | sysfsExample => ⟨sysfsExampleInit, sysfsExampleExit⟩
  | atomicDemo => ⟨atomicComprehensiveInit, atomicComprehensiveExit⟩
  | netlinkExample => ⟨netlinkExampleInit, netlinkExampleExit⟩
  | spinlockDemo => ⟨spinlockInit, spinlockExit⟩
  | mutexSemDemo => ⟨mutexSemInit, mutexSemExit⟩
  | rwlockDemo => ⟨rwLockInit, rwLockExit⟩
  | deadlockDemo => ⟨deadlockInit, deadlockExit⟩
  | dataStructuresDemo => ⟨dataStructuresInit, dataStructuresExit⟩
  | interruptDemo => ⟨timerIrqInit, timerIrqExit⟩
  | archDemo => ⟨archDemoInit, archDemoExit⟩
  | threadedIrqDemo => ⟨myInit, myExit⟩
  | interruptProcessing => ⟨demoInit, demoExit⟩
  | raisingSoftirqs => ⟨demoSoftirqInit, demoSoftirqExit⟩
  | taskletPriority => ⟨demoTaskletInit, demoTaskletExit⟩
  | workQueues => ⟨workInit, workExit⟩
  | jiffiesConversions => ⟨timeInit, timeExit⟩
  | basicTimer => ⟨timerInit, timerExit⟩
  | timerImplementation => ⟨simpleTimerInit, simpleTimerExit⟩
  | timerDemo => ⟨timerDemoInit, timerDemoExit⟩
  | ioctlTest => ⟨ioctlDemoInit, ioctlDemoExit⟩
  | memAllocatorDemo => ⟨memAllocatorDemoInit, memAllocatorDemoExit⟩
  | sharedMemoryDemo => ⟨sharedMemoryDemoInit, sharedMemoryDemoExit⟩
  | simpleVfs => ⟨exampleVfsInit, exampleVfsExit⟩
  | blockDemo => ⟨simpleBlockInit, simpleBlockExit⟩
  | vmaAllocation => ⟨simpleVmaInit, simpleVmaExit⟩
  | irqTest => ⟨testInit, testExit⟩
  | processInfo => ⟨processInfoInit, processInfoExit⟩

/-- The modules that leave something behind. -/
def untidyModules : List ModuleId :=
  [timerImplementation, dataStructuresDemo, interruptDemo, taskletPriority, timerDemo]

/-- All others. -/
def tidyModules : List ModuleId :=
  [procExample, posDemo, sysfsExample, atomicDemo, netlinkExample, spinlockDemo, mutexSemDemo, rwlockDemo, deadlockDemo,
   archDemo, threadedIrqDemo, interruptProcessing, raisingSoftirqs, workQueues, jiffiesConversions, basicTimer,
   ioctlTest, memAllocatorDemo, sharedMemoryDemo, simpleVfs, blockDemo, vmaAllocation, irqTest, processInfo]

theorem mem_tidyModules {i : ModuleId} : i ∈ tidyModules ↔ i ∉ untidyModules := by
  cases i <;> decide

theorem tidyModules_clean : ∀ i ∈ tidyModules, (modules i).clean rules = true := by
  decide +kernel

/-- Where nothing fails, the init functions succeed. -/
theorem tidyModules_succeed : ∀ i ∈ tidyModules, (modules i).succeeds rules = true := by
  decide +kernel

theorem tidyModules_names : ∀ i ∈ tidyModules, ∀ j ∈ tidyModules, i ≠ j →
    ∀ x ∈ (modules i).names, ∀ y ∈ (modules j).names, rules.uses x y = false ∧ y ≠ x := by
  decide +kernel

theorem tidyModules_jobs : ∀ i ∈ tidyModules, ∀ j ∈ tidyModules, i ≠ j →
    ∀ x ∈ (modules i).jobs rules, ∀ y ∈ (modules j).names, rules.needs x y = false := by
  decide +kernel

/-! ## The modules that leave something behind -/

/-- Only this name cannot be had. -/
def onlyFails (r : Resource) (r' : Resource) : Option Int := if r' = r then some (-12) else none

theorem onlyFails_negative (r : Resource) : Negative (onlyFails r) := by
  intro r' e he
  unfold onlyFails at he
  split at he <;> cases he
  decide

/-- The users of a file start a job whenever they can. -/
def users (r : Resource) (j : Job) (_ : Code) (h : Holding Resource Job) : List Job :=
  if r ∈ h.held then h.active.insert j else h.active

theorem users_background {r : Resource} {j : Job} (hj : j ∈ wakes r) : Background rules (users r j) := by
  intro s h
  unfold users
  split
  · next hr => exact .wake .refl (.inl ⟨r, hr, hj⟩)
  · exact .refl

/-- A job starts another whenever it can. -/
def callback (i j : Job) (_ : Code) (h : Holding Resource Job) : List Job :=
  if i ∈ h.active then h.active.insert j else h.active

theorem callback_background {i j : Job} (hj : j ∈ starts i) : Background rules (callback i j) := by
  intro s h
  unfold callback
  split
  · next hi => exact .wake .refl (.inr ⟨i, hi, hj⟩)
  · exact .refl

/-- The entry of the module stays: its exit function cannot create it once more. -/
theorem simpleTimer_not_balanced : ¬(modules timerImplementation).Balanced rules := by
  have hload : simpleTimerInit.run rules (fun _ => none) (fun _ h => h.active) .nothing (-1) .nothing =
      some (0, ⟨[proc ["simple_timer"]],
        [hrtimer timerImplementation "hr_timer", timer timerImplementation "periodic_timer"]⟩) := by decide
  have hunload : simpleTimerExit.run rules (fun _ => none) (fun _ h => h.active) .nothing (-1)
      ⟨[proc ["simple_timer"]],
        [hrtimer timerImplementation "hr_timer", timer timerImplementation "periodic_timer"]⟩ =
      some (0, ⟨[proc ["simple_timer"]], []⟩) := by decide
  exact Module.not_balanced_of_unload negative_none (background_active rules) hload hunload (by decide)

/-- All nodes stay if the entry cannot be created. -/
theorem dataStructures_not_balanced : ¬(modules dataStructuresDemo).Balanced rules := by
  have hload : dataStructuresInit.run rules (onlyFails (proc ["data_structures"])) (fun _ h => h.active) .nothing (-1)
      .nothing = some (-12, ⟨dataStructuresNodes.reverse, []⟩) := by decide
  exact Module.not_balanced_of_load (onlyFails_negative _) (background_active rules) hload (by decide) (by decide)

/-- The file is opened behind `del_timer_sync`, and the timer is armed when the module is gone. -/
theorem timerIrq_not_balanced : ¬(modules interruptDemo).Balanced rules := by
  have hbg : Background rules (users (proc ["timer_irq"]) (timer interruptDemo "my_timer")) :=
    users_background (by decide)
  have hload : timerIrqInit.run rules (fun _ => none) (users (proc ["timer_irq"]) (timer interruptDemo "my_timer"))
      .nothing (-1) .nothing = some (0, ⟨[proc ["timer_irq"]], [timer interruptDemo "my_timer"]⟩) := by decide
  have hunload : timerIrqExit.run rules (fun _ => none) (users (proc ["timer_irq"]) (timer interruptDemo "my_timer"))
      .nothing (-1) ⟨[proc ["timer_irq"]], [timer interruptDemo "my_timer"]⟩ =
      some (0, ⟨[], [timer interruptDemo "my_timer"]⟩) := by decide
  exact Module.not_balanced_of_unload negative_none hbg hload hunload (by decide)

/-- The file is written to behind `tasklet_kill`. -/
theorem demoTasklet_not_balanced : ¬(modules taskletPriority).Balanced rules := by
  have hbg : Background rules (users (proc ["tasklet_demo"]) (tasklet taskletPriority "normal_tasklet")) :=
    users_background (by decide)
  have hload : demoTaskletInit.run rules (fun _ => none)
      (users (proc ["tasklet_demo"]) (tasklet taskletPriority "normal_tasklet")) .nothing (-1) .nothing =
      some (0, ⟨[proc ["tasklet_demo"]],
        [tasklet taskletPriority "normal_tasklet", timer taskletPriority "tasklet_timer"]⟩) := by decide
  have hunload : demoTaskletExit.run rules (fun _ => none)
      (users (proc ["tasklet_demo"]) (tasklet taskletPriority "normal_tasklet")) .nothing (-1)
      ⟨[proc ["tasklet_demo"]],
        [tasklet taskletPriority "normal_tasklet", timer taskletPriority "tasklet_timer"]⟩ =
      some (0, ⟨[], [tasklet taskletPriority "normal_tasklet"]⟩) := by decide
  exact Module.not_balanced_of_unload negative_none hbg hload hunload (by decide)

/-- The timer fires before the entry cannot be created, and the tasklet is not killed. -/
theorem timerDemo_not_balanced : ¬(modules timerDemo).Balanced rules := by
  have hbg : Background rules (callback (timer timerDemo "demo_timer") (tasklet timerDemo "demo_tasklet")) :=
    callback_background (by decide)
  have hload : timerDemoInit.run rules (onlyFails (proc ["timer_demo"]))
      (callback (timer timerDemo "demo_timer") (tasklet timerDemo "demo_tasklet")) .nothing (-1) .nothing =
      some (-12, ⟨[], [tasklet timerDemo "demo_tasklet"]⟩) := by decide
  exact Module.not_balanced_of_load (onlyFails_negative _) hbg hload (by decide) (by decide)

/-- **Which modules clean up**: all but five. The entry of `timer_implementation.c` stays when it is unloaded, and the
nodes of `data_structures_demo.c` stay when its entry cannot be created. A timer of `interrupt_demo.c` and a tasklet
of `tasklet_proirity.c` may be left when they are unloaded, and a tasklet of `ioctl_demo.c` when its entry cannot be
created. -/
theorem modules_balanced_iff (i : ModuleId) : (modules i).Balanced rules ↔ i ∉ untidyModules := by
  refine ⟨fun h hi => ?_, fun h => Module.clean.balanced (tidyModules_clean i (mem_tidyModules.mpr h))⟩
  simp only [untidyModules, List.mem_cons, List.not_mem_nil, or_false] at hi
  rcases hi with rfl | rfl | rfl | rfl | rfl
  · exact simpleTimer_not_balanced h
  · exact dataStructures_not_balanced h
  · exact timerIrq_not_balanced h
  · exact demoTasklet_not_balanced h
  · exact timerDemo_not_balanced h

/-- **Any loads and unloads of the modules that clean up**, in any order, with any failures and with their jobs in the
background, next to anything that does not use their names. -/
theorem modules_lifecycle {base : Holding Resource Job}
    (hnames : ∀ i ∈ tidyModules, ∀ x ∈ base.held, ∀ y ∈ (modules i).names, uses x y = false ∧ y ≠ x)
    (hjobs : ∀ i ∈ tidyModules, ∀ j ∈ base.active, ∀ y ∈ (modules i).names, needs j y = false)
    {tr : List (ModEvent ModuleId Resource)} {k : Kernel ModuleId Resource Job}
    (h : (Kernel.system rules modules tidyModules base).Run tr k) :
    k.orphans = base ∧ (∀ i, k.loaded i = false → k.holding i = .nothing) ∧ ∀ i ∈ tidyModules,
      (k.loaded i = false → ∀ bg, Background rules bg →
        (∀ fails, Negative fails → ∃ ret own,
          (modules i).init.run rules fails bg (k.others tidyModules i) (-1) .nothing = some (ret, own) ∧
            (ret ≠ 0 → own = .nothing)) ∧
        ∃ own, (modules i).init.run rules (fun _ => none) bg (k.others tidyModules i) (-1) .nothing = some (0, own)) ∧
      (k.loaded i = true → ∀ bg, Background rules bg → ∀ fails, Negative fails → ∃ ret,
        (modules i).exit.run rules fails bg (k.others tidyModules i) (-1) (k.holding i) = some (ret, .nothing)) := by
  have hind : Kernel.Independent rules modules tidyModules base := ⟨hnames, hjobs, tidyModules_names, tidyModules_jobs⟩
  have horderly := Kernel.run_orderly tidyModules_clean hind h
  refine ⟨horderly.orphans, horderly.idle, fun i hi => ⟨fun _ bg hbg => ⟨fun fails hfails => ?_, ?_⟩, ?_⟩⟩
  · obtain ⟨ret, own, hrun, -, herr⟩ := horderly.load tidyModules_clean hind hi hfails hbg
    exact ⟨ret, own, hrun, herr⟩
  · exact horderly.load_ok hind hi (tidyModules_succeed i hi) (fun _ => rfl) hbg
  · exact fun hl bg hbg fails hfails => horderly.unload tidyModules_clean hind hl hfails hbg

/-- What `interrupt_processing.c` holds when its timer has fired once. -/
def firedOnce : Holding Resource Job where
  held := [proc ["top_bottom_demo"]]
  active := [work interruptProcessing "bottom_half_work", timer interruptProcessing "irq_simulator"]

/-- Next to an entry of the kernel, `interrupt_processing.c` is loaded and its timer fires: the work item is queued, and
whatever happens on, the exit function leaves nothing behind. -/
theorem modules_lifecycle_interruptProcessing :
    ∃ k, (Kernel.system rules modules tidyModules ⟨[proc ["version"]], []⟩).Run
        [.load interruptProcessing (fun _ => none) 0, .background interruptProcessing] k ∧
      k.holding interruptProcessing = firedOnce ∧ k.orphans = ⟨[proc ["version"]], []⟩ ∧
      ∀ bg, Background rules bg → ∀ fails, Negative fails → ∃ ret,
        demoExit.run rules fails bg (k.others tidyModules interruptProcessing) (-1) firedOnce =
          some (ret, .nothing) := by
  have hload : demoInit.run rules (fun _ => none) (fun _ h => h.active) (Kernel.others tidyModules
      ⟨fun _ => .nothing, fun _ => false, ⟨[proc ["version"]], []⟩⟩ interruptProcessing) (-1) .nothing =
      some (0, ⟨[proc ["top_bottom_demo"]], [timer interruptProcessing "irq_simulator"]⟩) := by decide
  have hfire : Drifts rules [proc ["top_bottom_demo"]] [timer interruptProcessing "irq_simulator"] firedOnce.active :=
    .wake (j := work interruptProcessing "bottom_half_work") .refl
      (.inr ⟨timer interruptProcessing "irq_simulator", List.mem_singleton.mpr rfl, by decide⟩)
  have hrun := ((System.Run.nil (M := Kernel.system rules modules tidyModules ⟨[proc ["version"]], []⟩)
    ⟨rfl, rfl, rfl⟩).snoc (.load (by decide) rfl negative_none (background_active rules) hload)).snoc
    (.background (i := interruptProcessing) rfl hfire)
  have hall := modules_lifecycle (by decide +kernel) (by decide) hrun
  exact ⟨_, hrun, rfl, hall.1, (hall.2.2 interruptProcessing (by decide)).2 rfl⟩

end KernelModules.Lifecycle
