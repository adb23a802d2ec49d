import KernelModules.Lib.CString

/-!
# The `/proc/virtual_log` module: the log and its two writers

The log is a static array of 100 entries with a count and the next id. `add_log_entry` appends while there is a free
slot and otherwise moves the array down by one and fills the last slot. It is called five times by `pos_demo_init` and
once by every `log_proc_write` that succeeds. The three `seq_file` operations that read the log are functions of the
position.
-/

namespace KernelModules.VirtualLog

open Lib

def maxLogEntries : Nat := 100

/-- `sizeof(message)`. -/
def messageSize : Nat := 64

/-- `struct log_entry`. -/
structure LogEntry where
  timestamp : UInt64
  entryId : Int32
  message : List UInt8
deriving DecidableEq, Repr

/-- A zeroed entry of the static array. -/
def LogEntry.zero : LogEntry := ⟨0, 0, List.replicate messageSize 0⟩

/-- `log_buffer`, `log_count` and `next_id`. -/
structure Log where
  logBuffer : List LogEntry
  logCount : Nat
  nextId : Int32

/-- The static initialisers. -/
def Log.empty : Log := ⟨List.replicate maxLogEntries .zero, 0, 1⟩

/-- The four assignments that fill a slot. -/
def LogEntry.fill (e : LogEntry) (jiffies : UInt64) (id : Int32) (message : List UInt8) : LogEntry :=
  { timestamp := jiffies
    entryId := id
    message := (strncpy e.message message (messageSize - 1)).set (messageSize - 1) 0 }

/-- `memmove(&log_buffer[0], &log_buffer[1], sizeof(struct log_entry) * (MAX_LOG_ENTRIES - 1))`. -/
def shiftDown (buf : List LogEntry) : List LogEntry :=
  (buf.drop 1).take (maxLogEntries - 1) ++ buf.drop (maxLogEntries - 1)

/-- Slot `i` of the array filled. -/
def fillSlot (buf : List LogEntry) (i : Nat) (jiffies : UInt64) (id : Int32) (message : List UInt8) : List LogEntry :=
  buf.set i ((buf.getD i .zero).fill jiffies id message)

def addLogEntry (l : Log) (jiffies : UInt64) (message : List UInt8) : Log :=
  if l.logCount < maxLogEntries then
    { logBuffer := fillSlot l.logBuffer l.logCount jiffies l.nextId message
      nextId := l.nextId + 1
      logCount := l.logCount + 1 }
  else
    { l with
      logBuffer := fillSlot (shiftDown l.logBuffer) (maxLogEntries - 1) jiffies l.nextId message
      nextId := l.nextId + 1 }

/-! ## Writers -/

/-- A call of `log_proc_write`: the time, the user's bytes with the size of the accessible ones, and whether `kmalloc`
succeeds. -/
structure Write where
  jiffies : UInt64
  buffer : Nat → UInt8
  count : Nat
  room : Nat
  alloc : Bool

/-- `kernel_buffer` as it is passed to `add_log_entry`; `count` is not zero. -/
def Write.kernelBuffer (w : Write) : List UInt8 :=
  let kernelBuffer := slice w.buffer 0 w.count ++ [0]
  if kernelBuffer.getD (w.count - 1) 0 = 0x0a then kernelBuffer.set (w.count - 1) 0 else kernelBuffer

/-- `log_proc_write`. With `count == 0` the newline test reads the byte before the allocation: no result. -/
def logProcWrite (l : Log) (w : Write) : Option (Log × Int) :=
  if w.count > 63 then some (l, -eInval)
  else if !w.alloc then some (l, -eNomem)
  else if w.room < w.count then some (l, -eFault)
  else if w.count = 0 then none
  else some (addLogEntry l w.jiffies w.kernelBuffer, w.count)

/-- A sequence of calls. -/
def logProcWrites (l : Log) : List Write → Option Log
  | [] => some l
  | w :: ws => (logProcWrite l w).bind fun r => logProcWrites r.1 ws

/-- The five messages of `pos_demo_init`. -/
def initialMessages : List (List UInt8) :=
  [ascii "System started", ascii "Module loading", ascii "Initialization complete", ascii "Ready for operations",
    ascii "First user access"]

/-- A message given to `add_log_entry`, with the `jiffies` of the call. -/
abbrev Message := UInt64 × List UInt8

/-- Messages given to `add_log_entry` one after the other. -/
def addLogEntries (l : Log) : List Message → Log
  | [] => l
  | m :: ms => addLogEntries (addLogEntry l m.1 m.2) ms

/-- The messages of `pos_demo_init`, added at the times that the clock gives. -/
def initialHistory (clock : Nat → UInt64) : List Message :=
  initialMessages.mapIdx fun i m => (clock i, m)

/-- `pos_demo_init`. -/
def posDemoInit (clock : Nat → UInt64) : Log := addLogEntries .empty (initialHistory clock)

/-! ## Readers -/

/-- `log_seq_start`: the index of the entry it points to, or `NULL`. -/
def logSeqStart (l : Log) (pos : Nat) : Option Nat := if pos ≥ l.logCount then none else some pos

/-- `log_seq_next`: the new position, and the index of the next entry or `NULL`. -/
def logSeqNext (l : Log) (pos : Nat) : Nat × Option Nat :=
  (pos + 1, if pos + 1 ≥ l.logCount then none else some (pos + 1))

/-- The entry that `log_seq_show` prints. -/
def logSeqShow (l : Log) (v : Nat) : Option LogEntry := l.logBuffer[v]?

/-! ## Equations -/

@[simp] theorem length_fillSlot (buf : List LogEntry) (i : Nat) (jiffies : UInt64) (id : Int32) (m : List UInt8) :
    (fillSlot buf i jiffies id m).length = buf.length := List.length_set

end KernelModules.VirtualLog
