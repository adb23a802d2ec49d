import KernelModules.Ioctl.IoctlDemo

/-!
# The shared memory demo

The device has one buffer that every client maps: in its first half the clients leave a message, in its second half
`process_message` leaves `"Echo #n: "` and the message. An `Area` is a half with its length, so a definition of an
access proves that the access stays inside.

The clients are runs of `shared_mem_test.c`, whose accesses are `clearResponse`, `writeMessage` and `readResponse`. What
is in the two areas, as strings: `cstr_writeMessage`, `processMessage_request`, `processMessage_response`.
-/

namespace KernelModules.SharedMem

open Lib Ioctl

/-! ## The device -/

def msgSize : Nat := 4096

/-- `SHARED_MEM_IOC_MAGIC`, the character `S`. -/
def sharedMemIocMagic : UInt32 := 0x53

/-- `_IO(SHARED_MEM_IOC_MAGIC, 1)`. -/
def sharedMemSendMsg : UInt32 := ioc iocNone sharedMemIocMagic 1 0

/-- Half of the shared buffer. -/
structure Area where
  bytes : List UInt8
  length_bytes : bytes.length = msgSize

structure SharedMemDevice where
  userToKernel : Area
  kernelToUser : Area
  msgCount : UInt64

/-- The response to message `n`. -/
def echo (n : UInt64) (message : List UInt8) : List UInt8 :=
  ascii "Echo #" ++ decimal n.toNat ++ ascii ": " ++ message

/-- A terminator stored inside the area. -/
def Area.terminate (a : Area) (i : Nat) (_ : i < msgSize) : Area where
  bytes := a.bytes.set i 0
  length_bytes := by rw [List.length_set, a.length_bytes]

/-- `snprintf(output, MSG_SIZE, ...)`. -/
def Area.print (a : Area) (text : List UInt8) : Area where
  bytes := snprintf a.bytes msgSize text
  length_bytes := by rw [length_snprintf (by decide) (Nat.le_of_eq a.length_bytes.symm), a.length_bytes]

/-- `process_message`, which holds the mutex from start to end. -/
def processMessage (d : SharedMemDevice) : SharedMemDevice :=
  let len := strnlen d.userToKernel.bytes (msgSize - 1)
  let input := d.userToKernel.terminate len (Nat.lt_of_le_of_lt (strnlen_le _ _) (by decide))
  let msgCount := d.msgCount + 1
  { userToKernel := input
    kernelToUser := d.kernelToUser.print (echo msgCount (cstr input.bytes))
    msgCount := msgCount }

/-- `shared_mem_ioctl`. -/
def sharedMemIoctl (cmd : UInt32) (d : SharedMemDevice) : SharedMemDevice × Int :=
  if iocType cmd ≠ sharedMemIocMagic then (d, -eNotty)
  else if cmd = sharedMemSendMsg then (processMessage d, 0)
  else (d, -eNotty)

def zeroed : Area := ⟨List.replicate msgSize 0, List.length_replicate⟩

/-- The device after `shared_memory_demo_init`. -/
def sharedMemoryDemoInit : SharedMemDevice := ⟨zeroed, zeroed, 0⟩

/-! ## The client -/

/-- What fits into `message` of `shared_mem_test.c`. -/
@[ext] structure Message where
  bytes : List UInt8
  short : bytes.length ≤ 511
  noNul : 0 ∉ bytes

/-- `memset(kernel_to_user, 0, MSG_SIZE)`. -/
def clearResponse (d : SharedMemDevice) : SharedMemDevice := { d with kernelToUser := zeroed }

/-- `strncpy(user_to_kernel, message, MSG_SIZE - 1)` and the terminator. -/
def writeMessage (m : Message) (d : SharedMemDevice) : SharedMemDevice :=
  let copied : Area :=
    { bytes := strncpy d.userToKernel.bytes (m.bytes ++ [0]) (msgSize - 1)
      length_bytes := by
        rw [length_strncpy (by rw [d.userToKernel.length_bytes]; decide), d.userToKernel.length_bytes] }
  { d with userToKernel := copied.terminate (msgSize - 1) (by decide) }

/-- The string that is printed. -/
def readResponse (d : SharedMemDevice) : List UInt8 := cstr d.kernelToUser.bytes

/-! ## The strings in the two areas -/

theorem cstr_zeroed : cstr zeroed.bytes = [] := cstr_replicate_zero msgSize

theorem sharedMemIoctl_send (d : SharedMemDevice) : sharedMemIoctl sharedMemSendMsg d = (processMessage d, 0) := rfl

/-- A stored message is the request. -/
theorem cstr_writeMessage (m : Message) (d : SharedMemDevice) :
    cstr (writeMessage m d).userToKernel.bytes = m.bytes := by
  have hm : cstr (m.bytes ++ [0]) = m.bytes := cstr_terminated [] m.noNul
  have hshort := m.short
  have hroom : (cstr (m.bytes ++ [0])).length < msgSize - 1 := by
    rw [hm, msgSize]
    omega
  obtain ⟨t, ht⟩ := cstr_strncpy d.userToKernel.bytes hroom
  -- the forced terminator lies behind the NUL that was copied
  simp only [writeMessage, Area.terminate, ht, hm]
  rw [List.set_append_right _ _ (by rw [msgSize]; omega), show msgSize - 1 - m.bytes.length = 4094 - m.bytes.length + 1
    by rw [msgSize]; omega, List.set_cons_succ]
  exact cstr_terminated _ m.noNul

/-- `process_message` reads the request as it is. -/
theorem processMessage_request {d : SharedMemDevice} (h : (cstr d.userToKernel.bytes).length ≤ msgSize - 1) :
    cstr (processMessage d).userToKernel.bytes = cstr d.userToKernel.bytes := by
  have hlen := d.userToKernel.length_bytes
  have hlt : msgSize - 1 < d.userToKernel.bytes.length := by rw [hlen]; decide
  simp only [processMessage, Area.terminate]
  rw [cstr_set_strnlen hlt, cstr_take, List.take_of_length_le h]

theorem zero_notMem_echo {n : UInt64} {message : List UInt8} (h : 0 ∉ message) : 0 ∉ echo n message := by
  simp only [echo, List.mem_append, not_or]
  exact ⟨⟨⟨by decide, zero_notMem_decimal _⟩, by decide⟩, h⟩

theorem length_echo_le (n : UInt64) (message : List UInt8) : (echo n message).length ≤ 28 + message.length := by
  have hdec : (decimal n.toNat).length ≤ 20 := length_decimal_le (by decide) (Nat.lt_of_lt_of_le n.toNat_lt (by decide))
  have hhead : (ascii "Echo #").length = 6 := rfl
  have hsep : (ascii ": ").length = 2 := rfl
  simp only [echo, List.length_append, hhead, hsep]
  omega

/-- The number and the message can be read off the response. -/
theorem echo_inj {n n' : UInt64} {message message' : List UInt8} (h : echo n message = echo n' message') :
    n = n' ∧ message = message' := by
  have hsep : ∀ m, ascii ": " ++ m = 58 :: 32 :: m := fun _ => rfl
  simp only [echo, List.append_assoc, hsep] at h
  obtain ⟨hn, hm⟩ := decimal_append_inj (by decide) (List.append_cancel_left h)
  exact ⟨UInt64.toNat_inj.mp hn, (List.cons.inj hm).2⟩

theorem echo_ne_nil (n : UInt64) (message : List UInt8) : echo n message ≠ [] := by
  simp [echo, ascii]

/-- `process_message` answers the request. -/
theorem processMessage_response {d : SharedMemDevice} (h : (cstr d.userToKernel.bytes).length ≤ 511) :
    readResponse (processMessage d) = echo (d.msgCount + 1) (cstr d.userToKernel.bytes) := by
  have hreq := processMessage_request (d := d) (by rw [msgSize]; omega)
  have hle := length_echo_le (d.msgCount + 1) (cstr d.userToKernel.bytes)
  simp only [processMessage] at hreq
  simp only [readResponse, processMessage, Area.print, hreq]
  exact cstr_snprintf (by rw [msgSize]; omega) (zero_notMem_echo (zero_notMem_cstr _))

end KernelModules.SharedMem
