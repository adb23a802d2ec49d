import KernelModules.VirtualLog.Newest

/-!
# The indices of a write to the log

`log_proc_write` and the `add_log_entry` it calls are followed access by access: the copy into `kernel_buffer`, its
terminator, the newline test, the two ways of filling a slot, and the text that is printed at the end. The arrays keep
their sizes over all writes (`logAfter_holds`), so every index is inside its array but one: the newline test of an empty
write (`virtual_log_write_indices`).
-/

namespace KernelModules.VirtualLog

open Lib

/-! ## The code -/

/-- An element that is read or written. -/
inductive Access
  | kernelBuffer (i : Nat)
  /-- `log_buffer[slot]`. -/
  | logBuffer (slot : Nat)
  /-- `log_buffer[slot].message[i]`. -/
  | message (slot i : Nat)
deriving DecidableEq, Repr

/-- The characters of a string, with its terminator. -/
def stringIndices (s : List UInt8) : List Nat := List.range ((cstr s).length + 1)

/-- The assignments to the fields of a slot. `strncpy` reads its source up to the terminator and pads its destination.
-/
def fillAccesses (slot : Nat) (message : List UInt8) : List Access :=
  [.logBuffer slot, .logBuffer slot] ++
    ((stringIndices message).take (messageSize - 1)).map .kernelBuffer ++
    (List.range (messageSize - 1)).map (.message slot) ++ [.message slot (messageSize - 1)]

/-- `memmove(&log_buffer[0], &log_buffer[1], sizeof(struct log_entry) * (MAX_LOG_ENTRIES - 1))`. -/
def shiftAccesses : List Access :=
  (List.range (maxLogEntries - 1)).map (fun i => .logBuffer (i + 1)) ++
    (List.range (maxLogEntries - 1)).map .logBuffer

def addLogEntryAccesses (l : Log) (message : List UInt8) : List Access :=
  if l.logCount < maxLogEntries then fillAccesses l.logCount message
  else shiftAccesses ++ fillAccesses (maxLogEntries - 1) message

/-- `count - 1`, a `size_t`. -/
def newlineIndex (count : Nat) : Nat := (count + (2 ^ 64 - 1)) % 2 ^ 64

/-- What the newline test finds; `before` is the byte in front of the allocation. -/
def newlineByte (w : Write) (before : UInt8) : UInt8 := if w.count = 0 then before else w.buffer (w.count - 1)

/-- The accesses of `log_proc_write`. A copy that fails has zeroed what it did not copy. -/
def logProcWriteAccesses (l : Log) (w : Write) (before : UInt8) : List Access :=
  if w.count > 63 then []
  else if !w.alloc then []
  else if w.room < w.count then (List.range w.count).map .kernelBuffer
  else
    (List.range w.count).map .kernelBuffer ++ [.kernelBuffer w.count, .kernelBuffer (newlineIndex w.count)] ++
      (if newlineByte w before = 0x0a then [.kernelBuffer (newlineIndex w.count)] else []) ++
      addLogEntryAccesses l w.kernelBuffer ++ (stringIndices w.kernelBuffer).map .kernelBuffer

/-- `log_proc_write` if it survives its newline test: an empty write adds an empty message. -/
def logProcWriteOver (l : Log) (w : Write) : Log × Int :=
  (logProcWrite l w).getD (addLogEntry l w.jiffies w.kernelBuffer, w.count)

/-- The log after `pos_demo_init` and any writes, empty ones included. -/
def logAfter (clock : Nat → UInt64) (ws : List Write) : Log :=
  ws.foldl (fun l w => (logProcWriteOver l w).1) (posDemoInit clock)

/-- The element exists; `kernel_buffer` has `count + 1` bytes. -/
def Access.InBounds (l : Log) (count : Nat) : Access → Prop
  | .kernelBuffer i => i ≤ count
  | .logBuffer slot => slot < l.logBuffer.length
  | .message slot i => ∃ e, l.logBuffer[slot]? = some e ∧ i < e.message.length

/-! ## The log that writes leave -/

/-- A write, empty or not, passes a message on or changes nothing. -/
theorem logProcWriteOver_log (l : Log) (w : Write) :
    (logProcWriteOver l w).1 = addLogEntry l w.jiffies w.kernelBuffer ∨ (logProcWriteOver l w).1 = l := by
  by_cases h0 : w.count = 0
  · unfold logProcWriteOver logProcWrite
    cases w.alloc with
    | false => exact .inr (by simp [h0])
    | true => exact .inl (by simp [h0])
  · obtain ⟨ret, hw⟩ := logProcWrite_eq l (Nat.pos_of_ne_zero h0)
    rw [logProcWriteOver, hw, Option.getD_some]
    cases w.accepted with
    | false => exact .inr rfl
    | true => exact .inl rfl

/-- **One write** leaves a log that shows a history. -/
theorem Holds.writeOver {l : Log} {ms : List Message} (h : Holds l ms) (w : Write) :
    ∃ ms', Holds (logProcWriteOver l w).1 ms' := by
  rcases logProcWriteOver_log l w with hw | hw
  · exact ⟨_, hw ▸ h.add (w.jiffies, w.kernelBuffer)⟩
  · exact ⟨ms, hw.symm ▸ h⟩

theorem Holds.writesOver {l : Log} {ms : List Message} (h : Holds l ms) (ws : List Write) :
    ∃ ms', Holds (ws.foldl (fun l w => (logProcWriteOver l w).1) l) ms' := by
  induction ws generalizing l ms with
  | nil => exact ⟨ms, h⟩
  | cons w ws ih =>
    obtain ⟨ms', hw⟩ := h.writeOver w
    exact ih hw

/-- **Any writes** leave a log that shows a history. -/
theorem logAfter_holds (clock : Nat → UInt64) (ws : List Write) : ∃ ms, Holds (logAfter clock ws) ms :=
  (addLogEntries_holds (initialHistory clock)).writesOver ws

/-! ## One write -/

section Indices

variable {l : Log} {ms : List Message} {count : Nat}

/-- `kernel_buffer` is terminated within its `count + 1` bytes. -/
theorem Write.length_cstr_kernelBuffer (w : Write) : (cstr w.kernelBuffer).length ≤ w.count := by
  have hlen : w.kernelBuffer.length = w.count + 1 := by
    simp only [Write.kernelBuffer]
    split
    · rw [List.length_set, List.length_append, length_slice, List.length_singleton]
    · rw [List.length_append, length_slice, List.length_singleton]
  have hzero : 0 ∈ w.kernelBuffer := by
    simp only [Write.kernelBuffer]
    split
    · exact List.mem_set (by rw [List.length_append, length_slice, List.length_singleton]; omega) 0
    · exact List.mem_append_right _ List.mem_cons_self
  have hlt := length_cstr_lt hzero
  omega

theorem mem_stringIndices {s : List UInt8} {i : Nat} : i ∈ stringIndices s ↔ i ≤ (cstr s).length := by
  rw [stringIndices, List.mem_range, Nat.lt_succ_iff]

/-- Filling a slot of the array stays inside it, its message and the string. -/
theorem fillAccesses_inBounds (h : Holds l ms) {slot : Nat} (hslot : slot < maxLogEntries) {message : List UInt8}
    (hmessage : (cstr message).length ≤ count) : ∀ x ∈ fillAccesses slot message, x.InBounds l count := by
  have hlt : slot < l.logBuffer.length := by rw [h.size]; exact hslot
  have hentry : ∀ i < messageSize, Access.InBounds l count (.message slot i) := by
    intro i hi
    refine ⟨l.logBuffer[slot], List.getElem?_eq_getElem hlt, ?_⟩
    rw [h.arrays _ (List.getElem_mem hlt)]
    exact hi
  intro x hx
  simp only [fillAccesses, List.mem_append, List.mem_cons, List.mem_map, List.mem_range, List.not_mem_nil,
    or_false] at hx
  rcases hx with (((rfl | rfl) | ⟨i, hi, rfl⟩) | ⟨i, hi, rfl⟩) | rfl
  · exact hlt
  · exact hlt
  · exact Nat.le_trans (mem_stringIndices.mp (List.mem_of_mem_take hi)) hmessage
  · exact hentry i (by simp only [messageSize] at hi ⊢; omega)
  · exact hentry _ (by decide)

theorem shiftAccesses_inBounds (h : Holds l ms) : ∀ x ∈ shiftAccesses, x.InBounds l count := by
  have hsize := h.size
  simp only [maxLogEntries] at hsize
  intro x hx
  simp only [shiftAccesses, maxLogEntries, List.mem_append, List.mem_map, List.mem_range] at hx
  rcases hx with ⟨i, hi, rfl⟩ | ⟨i, hi, rfl⟩
  · simp only [Access.InBounds]
    omega
  · simp only [Access.InBounds]
    omega

/-- Both ways of adding an entry stay inside the arrays. -/
theorem addLogEntryAccesses_inBounds (h : Holds l ms) {message : List UInt8}
    (hmessage : (cstr message).length ≤ count) :
    ∀ x ∈ addLogEntryAccesses l message, x.InBounds l count := by
  unfold addLogEntryAccesses
  split
  · rename_i hfree
    exact fillAccesses_inBounds h hfree hmessage
  · intro x hx
    rcases List.mem_append.mp hx with hx | hx
    · exact shiftAccesses_inBounds h x hx
    · exact fillAccesses_inBounds h (by decide) hmessage x hx

theorem newlineIndex_le_iff {count : Nat} (h : count ≤ 63) : newlineIndex count ≤ count ↔ count ≠ 0 := by
  unfold newlineIndex
  omega

/-- The indices of one write, in a log whose arrays have their sizes. -/
theorem logProcWriteAccesses_inBounds_iff (h : Holds l ms) (w : Write) (before : UInt8) :
    (∀ x ∈ logProcWriteAccesses l w before, x.InBounds l w.count) ↔ ¬(w.count = 0 ∧ w.alloc = true) := by
  have hcopy : ∀ x ∈ (List.range w.count).map Access.kernelBuffer, x.InBounds l w.count := by
    intro x hx
    obtain ⟨i, hi, rfl⟩ := List.mem_map.mp hx
    exact Nat.le_of_lt (List.mem_range.mp hi)
  unfold logProcWriteAccesses
  by_cases hcount : w.count > 63
  · rw [if_pos hcount]
    exact iff_of_true (fun x hx => by cases hx) (by omega)
  rw [if_neg hcount]
  cases halloc : w.alloc with
  | false => exact iff_of_true (fun x hx => by cases hx) (by simp)
  | true =>
    simp only [Bool.not_true, Bool.false_eq_true, ↓reduceIte, and_true]
    by_cases hroom : w.room < w.count
    · rw [if_pos hroom]
      exact iff_of_true hcopy (by omega)
    rw [if_neg hroom]
    constructor
    · intro hall
      -- the newline test is among the accesses
      exact (newlineIndex_le_iff (by omega)).mp (hall (.kernelBuffer (newlineIndex w.count)) (by simp))
    · intro hpos
      have hnewline : newlineIndex w.count ≤ w.count := (newlineIndex_le_iff (by omega)).mpr hpos
      intro x hx
      simp only [List.mem_append, List.mem_cons, List.not_mem_nil, or_false] at hx
      rcases hx with (((hx | rfl | rfl) | hx) | hx) | hx
      · exact hcopy x hx
      · exact Nat.le_refl _
      · exact hnewline
      · split at hx
        · rw [List.mem_singleton.mp hx]
          exact hnewline
        · cases hx
      · exact addLogEntryAccesses_inBounds h w.length_cstr_kernelBuffer x hx
      · obtain ⟨i, hi, rfl⟩ := List.mem_map.mp hx
        exact Nat.le_trans (mem_stringIndices.mp hi) w.length_cstr_kernelBuffer

end Indices

/-- **The indices of a write.** In every log that `pos_demo_init` and any writes leave, and whatever lies in front of
the allocation: all indices of a write and of its `add_log_entry` are inside `kernel_buffer`, `log_buffer` and the
message of an entry, unless the write is empty and gets its buffer. -/
theorem virtual_log_write_indices (clock : Nat → UInt64) (ws : List Write) (w : Write) (before : UInt8) :
    (∀ x ∈ logProcWriteAccesses (logAfter clock ws) w before, x.InBounds (logAfter clock ws) w.count) ↔
      ¬(w.count = 0 ∧ w.alloc = true) := by
  obtain ⟨ms, h⟩ := logAfter_holds clock ws
  exact logProcWriteAccesses_inBounds_iff h w before

/-- A write of no bytes. -/
def emptyWrite : Write := ⟨0, fun _ => 0, 0, 0, true⟩

/-- It is admitted, and its newline test reads the byte in front of the allocation. -/
theorem virtual_log_write_indices_empty : emptyWrite.count ≤ 63 ∧
    .kernelBuffer (2 ^ 64 - 1) ∈ logProcWriteAccesses (posDemoInit fun _ => 0) emptyWrite 0 ∧
    ¬Access.InBounds (posDemoInit fun _ => 0) emptyWrite.count (.kernelBuffer (2 ^ 64 - 1)) := by
  refine ⟨by decide, by decide, ?_⟩
  simp only [Access.InBounds, emptyWrite]
  omega

end KernelModules.VirtualLog
