import KernelModules.Lib.CString
import KernelModules.Locks.MutexSemDemo

/-!
# A message under a mutex

Processes run `mutex_demo_read`, any number of times each: under `shared_data_mutex` they add to `shared_data`, put
their pid into `shared_message` and copy both, and format a text from the copies after the mutex is free again.
`status_read` formats what it finds in these and in the two counters of the semaphore demo, without any lock.

The message has one of two shapes in every state (`run_shaped`), so all texts fit the arrays they are printed to
(`fits_mutexText`, `fits_statusText`, `fits_semaphoreText`).
-/

namespace KernelModules.Locks.MutexDemo

open Lib MutexSem

universe u

/-! ## The code -/

def messageSize : Nat := 64

def initialState : List UInt8 := ascii "Initial state"

def updatedText (pid : Int32) : List UInt8 := ascii "Updated by PID " ++ ascii (toString pid)

def mutexText (localData : Int32) (localMsg : List UInt8) (pid : Int32) : List UInt8 :=
  ascii "=== Mutex Demo ===\nShared data: " ++ ascii (toString localData) ++ ascii "\nMessage: " ++ localMsg ++
  ascii "\nPID: " ++ ascii (toString pid) ++ ascii "\nMutex allows sleeping in critical section\n"

def statusText (sharedData : Int32) (sharedMessage : List UInt8) (activeUsers : Int) (resourceIdCounter : Int32) :
    List UInt8 :=
  ascii "=== Mutex & Semaphore Status ===\nShared data: " ++ ascii (toString sharedData) ++
  ascii "\nShared message: " ++ sharedMessage ++ ascii "\nActive resource users: " ++ ascii (toString activeUsers) ++
  ascii "/" ++ ascii (toString maxResources) ++ ascii "\nResource counter: " ++
  ascii (toString (resourceIdCounter - 1)) ++
  ascii "\n\nUsage:\ncat /proc/sync_demo/mutex    - Test mutex\n" ++
  ascii "cat /proc/sync_demo/semaphore - Test semaphore\n"

/-- The mutex and the data under it. -/
structure Shared (P : Type u) where
  sharedDataMutex : Option P
  sharedData : Int32
  sharedMessage : List UInt8

/-- Where a process is in `mutex_demo_read`. -/
inductive Pc
  | idle
  | entry (pos : Int)
  /-- At `mutex_lock_interruptible`. -/
  | locking
  | locked
  /-- `shared_data` is read and not yet stored. -/
  | adding (v : Int32)
  | printing
  | copyData
  | copyMessage (localData : Int32)
  /-- In `msleep`, with the copies. -/
  | sleeping (localData : Int32) (localMsg : List UInt8)
  /-- At `copy_to_user`. -/
  | copying (text : List UInt8)
  | done (ret : Int)

inductive Act
  | call (pos : Int)
  | check
  | lock
  | interrupted
  | load
  | store
  | print
  | copyData
  | copyMessage
  | unlock
  | copy (text : List UInt8) (fault : Bool)

/-- Not in the handler. -/
def Pc.outside : Pc → Bool
  | .idle => true
  | .done _ => true
  | _ => false

variable {P : Type u}

/-- One step of process `p`. -/
inductive ReadStep (pid : P → Int32) (p : P) : Shared P → Pc → Act → Shared P → Pc → Prop
  | call {g : Shared P} {l : Pc} (pos : Int) : l.outside = true → ReadStep pid p g l (.call pos) g (.entry pos)
  | seen {g : Shared P} {pos : Int} : pos > 0 → ReadStep pid p g (.entry pos) .check g (.done 0)
  | enter {g : Shared P} {pos : Int} : ¬pos > 0 → ReadStep pid p g (.entry pos) .check g .locking
  | lock {g : Shared P} : g.sharedDataMutex = none →
      ReadStep pid p g .locking .lock { g with sharedDataMutex := some p } .locked
  | interrupted {g : Shared P} : ReadStep pid p g .locking .interrupted g (.done (-eRestartsys))
  | load {g : Shared P} : ReadStep pid p g .locked .load g (.adding g.sharedData)
  | store {g : Shared P} {v : Int32} :
      ReadStep pid p g (.adding v) .store { g with sharedData := v + pid p % 100 } .printing
  | print {g : Shared P} : ReadStep pid p g .printing .print
      { g with sharedMessage := snprintf g.sharedMessage messageSize (updatedText (pid p)) } .copyData
  | copyData {g : Shared P} : ReadStep pid p g .copyData .copyData g (.copyMessage g.sharedData)
  /-- `strncpy` fills all of `local_msg`. -/
  | copyMessage {g : Shared P} {localData : Int32} : ReadStep pid p g (.copyMessage localData) .copyMessage g
      (.sleeping localData (strncpy [] g.sharedMessage messageSize))
  | unlock {g : Shared P} {localData : Int32} {localMsg : List UInt8} :
      ReadStep pid p g (.sleeping localData localMsg) .unlock { g with sharedDataMutex := none }
        (.copying (mutexText localData (cstr localMsg) (pid p)))
  | copy {g : Shared P} {text : List UInt8} (fault : Bool) :
      ReadStep pid p g (.copying text) (.copy text fault) g (.done (if fault then -eFault else text.length))

/-- After loading. -/
def initial : Shared P := ⟨none, 0, strcpy (List.replicate messageSize 0) initialState⟩

/-- Any number of processes. -/
def mutexDemo [DecidableEq P] (pid : P → Int32) : System (Threads P (Shared P) Pc) (P × Act) :=
  interleave (fun g => g = initial) (fun l => l = .idle) (ReadStep pid)

/-! ## The message -/

/-- The two shapes of the message. -/
def Shape (message : List UInt8) : Prop := message = initialState ∨ ∃ pid, message = updatedText pid

/-- What a process has made of the message. -/
def Pc.Shaped (pid : Int32) : Pc → Prop
  | .sleeping _ localMsg => Shape (cstr localMsg)
  | .copying text => ∃ localData message, Shape message ∧ text = mutexText localData message pid
  | _ => True

theorem length_updatedText (pid : Int32) : (updatedText pid).length ≤ 26 := by
  have hpid := length_toString_int32 pid
  have htext : (ascii "Updated by PID ").length = 15 := rfl
  rw [updatedText, List.length_append, htext]
  omega

theorem Shape.length {message : List UInt8} (h : Shape message) : message.length ≤ 26 := by
  rcases h with rfl | ⟨pid, rfl⟩
  · decide
  · exact length_updatedText pid

theorem cstr_updatedText (dst : List UInt8) (pid : Int32) :
    cstr (snprintf dst messageSize (updatedText pid)) = updatedText pid := by
  have hlen := length_updatedText pid
  have hnum : 0 ∉ ascii (toString pid) := zero_notMem_toString_int pid.toInt
  have hzero : 0 ∉ ascii "Updated by PID " := by decide
  refine cstr_snprintf (by rw [messageSize]; omega) ?_
  rw [updatedText, List.mem_append]
  exact fun h => h.elim hzero hnum

/-- The copy of a message that fits. -/
theorem cstr_strncpy_shape {src : List UInt8} (h : Shape (cstr src)) :
    cstr (strncpy [] src messageSize) = cstr src := by
  have hlen := h.length
  have hfits : (cstr src).length < messageSize := by
    rw [messageSize]
    omega
  obtain ⟨t, ht⟩ := cstr_strncpy [] hfits
  rw [ht]
  exact cstr_terminated t (zero_notMem_cstr src)

/-- **One step** keeps the shapes. -/
theorem readStep_shaped {pid : P → Int32} {p : P} {g g' : Shared P} {l l' : Pc} {act : Act}
    (h : ReadStep pid p g l act g' l') (hg : Shape (cstr g.sharedMessage)) (hl : l.Shaped (pid p)) :
    Shape (cstr g'.sharedMessage) ∧ l'.Shaped (pid p) := by
  cases h with
  | print =>
    refine ⟨.inr ⟨pid p, ?_⟩, trivial⟩
    exact cstr_updatedText g.sharedMessage (pid p)
  | copyMessage =>
    refine ⟨hg, ?_⟩
    show Shape _
    rw [cstr_strncpy_shape hg]
    exact hg
  | unlock => exact ⟨hg, _, _, hl, rfl⟩
  | _ => exact ⟨hg, trivial⟩

variable [DecidableEq P]

/-- **Every run** keeps the shapes. -/
theorem run_shaped {pid : P → Int32} {tr : List (P × Act)} {s : Threads P (Shared P) Pc}
    (h : (mutexDemo pid).Run tr s) : Shape (cstr s.shared.sharedMessage) ∧ ∀ p, (s.pc p).Shaped (pid p) := by
  refine h.invariant (I := fun s => Shape (cstr s.shared.sharedMessage) ∧ ∀ p, (s.pc p).Shaped (pid p)) ?_ ?_
  · rintro ⟨g, pc⟩ ⟨rfl, hidle⟩
    have hpc : ∀ p, pc p = .idle := hidle
    have hmessage : cstr (strcpy (List.replicate messageSize 0) initialState) = initialState := by decide
    refine ⟨.inl hmessage, fun p => ?_⟩
    simp only [hpc p, Pc.Shaped]
  · rintro s ⟨p, act⟩ _ ⟨hg, hpc⟩ ⟨g', l', hstep, rfl⟩
    obtain ⟨hg', hl'⟩ := readStep_shaped hstep hg (hpc p)
    exact ⟨hg', (Function.forall_update_iff s.pc fun q l => l.Shaped (pid q)).mpr ⟨hl', fun q _ => hpc q⟩⟩

/-! ## Lengths -/

theorem fits_mutexText {localData pid : Int32} {message : List UInt8} (h : Shape message) :
    Fits 256 (mutexText localData message pid) := by
  have hdata := length_toString_int32 localData
  have hpid := length_toString_int32 pid
  have hmessage := h.length
  have h₁ : (ascii "=== Mutex Demo ===\nShared data: ").length = 32 := rfl
  have h₂ : (ascii "\nMessage: ").length = 10 := rfl
  have h₃ : (ascii "\nPID: ").length = 6 := rfl
  have h₄ : (ascii "\nMutex allows sleeping in critical section\n").length = 43 := rfl
  simp only [Fits, mutexText, List.length_append, h₁, h₂, h₃, h₄]
  omega

/-- A count of users is one digit. -/
theorem length_toString_users {n : Int} (h : 0 ≤ n) (hle : n ≤ maxResources) : (ascii (toString n)).length = 1 := by
  have hn : n = 0 ∨ n = 1 ∨ n = 2 ∨ n = 3 := by
    have : (maxResources : Int) = 3 := rfl
    omega
  rcases hn with rfl | rfl | rfl | rfl <;> decide

theorem length_toString_maxResources : (ascii (toString maxResources)).length = 1 := by decide

/-- The text fits to the byte: the three longest numbers and the longest message make 255 characters. -/
theorem fits_statusText {sharedData resourceIdCounter : Int32} {message : List UInt8} {activeUsers : Int}
    (hmessage : message.length ≤ 26) (hpos : 0 ≤ activeUsers) (hle : activeUsers ≤ maxResources) :
    Fits 256 (statusText sharedData message activeUsers resourceIdCounter) := by
  have hdata := length_toString_int32 sharedData
  have hid := length_toString_int32 (resourceIdCounter - 1)
  have h₁ : (ascii "=== Mutex & Semaphore Status ===\nShared data: ").length = 46 := rfl
  have h₂ : (ascii "\nShared message: ").length = 17 := rfl
  have h₃ : (ascii "\nActive resource users: ").length = 24 := rfl
  have h₄ : (ascii "/").length = 1 := rfl
  have h₅ : (ascii "\nResource counter: ").length = 19 := rfl
  have h₆ : (ascii "\n\nUsage:\ncat /proc/sync_demo/mutex    - Test mutex\n").length = 51 := rfl
  have h₇ : (ascii "cat /proc/sync_demo/semaphore - Test semaphore\n").length = 47 := rfl
  simp only [Fits, statusText, List.length_append, length_toString_users hpos hle, length_toString_maxResources,
    h₁, h₂, h₃, h₄, h₅, h₆, h₇]
  omega

theorem fits_semaphoreText {id pid : Int32} {userCount : Int} (hpos : 0 ≤ userCount) (hle : userCount ≤ maxResources) :
    Fits 256 (semaphoreText id pid.toInt userCount) := by
  have hid := length_toString_int32 id
  have hpid : (ascii (toString pid.toInt)).length ≤ 11 := length_toString_int32 pid
  have h₁ : (ascii "=== Semaphore Demo ===\nResource ID: ").length = 36 := rfl
  have h₂ : (ascii "\nUsed by PID: ").length = 14 := rfl
  have h₃ : (ascii "\nActive users: ").length = 15 := rfl
  have h₄ : (ascii "/").length = 1 := rfl
  have h₅ : (ascii "\nSemaphore controls resource pool access\n").length = 41 := rfl
  simp only [Fits, semaphoreText, List.length_append, length_toString_users hpos hle, length_toString_maxResources,
    h₁, h₂, h₃, h₄, h₅]
  omega

end KernelModules.Locks.MutexDemo
