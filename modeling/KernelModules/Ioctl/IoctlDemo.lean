import KernelModules.Lib.CString

/-!
# The ioctl device (`ioctl_test.c`)

`ioctl_demo_ioctl` checks the type, the number and the user range of a 32-bit command word, takes the mutex and
dispatches on the whole word. Its state is a pair of registers, an `int` and a string in a 256-byte array. What a call
reads from user memory, whether its user copy faults and what its stack buffer held before are part of the call.
-/

namespace KernelModules.Ioctl

open Lib

/-! ## Command words -/

/-- `_IOC(dir, type, nr, size)`. -/
def ioc (dir type nr size : UInt32) : UInt32 := (dir <<< 30) ||| (type <<< 8) ||| nr ||| (size <<< 16)

def iocNone : UInt32 := 0
def iocWrite : UInt32 := 1
def iocRead : UInt32 := 2

/-- `IOCTL_DEMO_MAGIC`, the character `D`. -/
def ioctlDemoMagic : UInt32 := 0x44

/-- `_IOW(IOCTL_DEMO_MAGIC, 1, int)`. -/
def ioctlSetValue : UInt32 := ioc iocWrite ioctlDemoMagic 1 4
/-- `_IOR(IOCTL_DEMO_MAGIC, 2, int)`. -/
def ioctlGetValue : UInt32 := ioc iocRead ioctlDemoMagic 2 4
/-- `_IOW(IOCTL_DEMO_MAGIC, 3, char*)`. -/
def ioctlSetString : UInt32 := ioc iocWrite ioctlDemoMagic 3 8
/-- `_IOR(IOCTL_DEMO_MAGIC, 4, char*)`. -/
def ioctlGetString : UInt32 := ioc iocRead ioctlDemoMagic 4 8
/-- `_IO(IOCTL_DEMO_MAGIC, 5)`. -/
def ioctlReset : UInt32 := ioc iocNone ioctlDemoMagic 5 0

/-- The five command words. -/
def commands : List UInt32 := [ioctlSetValue, ioctlGetValue, ioctlSetString, ioctlGetString, ioctlReset]

def iocDir (cmd : UInt32) : UInt32 := (cmd >>> 30) &&& 3
def iocType (cmd : UInt32) : UInt32 := (cmd >>> 8) &&& 0xff
def iocNr (cmd : UInt32) : UInt32 := cmd &&& 0xff
def iocSize (cmd : UInt32) : UInt32 := (cmd >>> 16) &&& 0x3fff

/-! ## The device and a call -/

def maxStringSize : Nat := 256

def defaultValue : Int32 := 0

def defaultString : List UInt8 := ascii "default_string"

/-- `struct ioctl_device`: the registers and whether the mutex is held. -/
structure IoctlDevice where
  value : Int32
  string : List UInt8
  lock : Bool

/-- A call: the command word, its argument, user memory, `access_ok`, whether the user copy of the command faults, and
the previous contents of `kernel_buffer`. -/
structure Call where
  cmd : UInt32
  arg : UInt64
  user : UInt64 → UInt8
  accessOk : UInt64 → UInt32 → Bool
  fault : Bool
  stack : Nat → UInt8

/-- What a call returns and the bytes it has delivered at `arg`. -/
structure Outcome where
  ret : Int
  delivered : List UInt8

/-- User memory from `arg` on. -/
def Call.src (c : Call) (i : Nat) : UInt8 := c.user (c.arg + UInt64.ofNat i)

/-- The `int` stored in four bytes, least significant first. -/
def intOfBytes (m : Nat → UInt8) : Int32 :=
  (UInt32.ofNat ((m 0).toNat + 256 * (m 1).toNat + 65536 * (m 2).toNat + 16777216 * (m 3).toNat)).toInt32

/-- The four bytes of an `int`. -/
def bytesOfInt (v : Int32) : List UInt8 :=
  [UInt8.ofNat v.toUInt32.toNat, UInt8.ofNat (v.toUInt32.toNat / 256), UInt8.ofNat (v.toUInt32.toNat / 65536),
    UInt8.ofNat (v.toUInt32.toNat / 16777216)]

/-- `ioctl_demo_init`, up to the registration of the device; `device_data` starts zeroed. -/
def ioctlDemoInit : IoctlDevice where
  value := defaultValue
  string := strcpy (List.replicate maxStringSize 0) defaultString
  lock := false

/-- `kernel_buffer` after `strncpy_from_user` and its forced terminator. -/
def Call.kernelBuffer (c : Call) : List UInt8 :=
  (overlay (slice c.stack 0 maxStringSize) (userString c.src (maxStringSize - 1))).set (maxStringSize - 1) 0

/-- The `switch` of `ioctl_demo_ioctl`, under the mutex. -/
def ioctlSwitch (d : IoctlDevice) (c : Call) : IoctlDevice × Outcome :=
  if c.cmd = ioctlSetValue then
    if c.fault then (d, ⟨-eFault, []⟩) else ({ d with value := intOfBytes c.src }, ⟨0, []⟩)
  else if c.cmd = ioctlGetValue then
    if c.fault then (d, ⟨-eFault, []⟩) else (d, ⟨0, bytesOfInt d.value⟩)
  else if c.cmd = ioctlSetString then
    if c.fault then (d, ⟨-eFault, []⟩) else ({ d with string := strcpy d.string c.kernelBuffer }, ⟨0, []⟩)
  else if c.cmd = ioctlGetString then
    if c.fault then (d, ⟨-eFault, []⟩) else (d, ⟨0, d.string.take ((cstr d.string).length + 1)⟩)
  else if c.cmd = ioctlReset then
    ({ d with value := defaultValue, string := strcpy d.string defaultString }, ⟨0, []⟩)
  else
    (d, ⟨-eNotty, []⟩)

/-- `ioctl_demo_ioctl`; `none` if `mutex_lock` never returns. -/
def ioctlDemoIoctl (d : IoctlDevice) (c : Call) : Option (IoctlDevice × Outcome) :=
  if iocType c.cmd ≠ ioctlDemoMagic then
    some (d, ⟨-eNotty, []⟩)
  else if iocNr c.cmd > 5 then
    some (d, ⟨-eNotty, []⟩)
  else if iocDir c.cmd &&& iocRead ≠ 0 ∧ ¬ c.accessOk c.arg (iocSize c.cmd) then
    some (d, ⟨-eFault, []⟩)
  else if iocDir c.cmd &&& iocWrite ≠ 0 ∧ ¬ c.accessOk c.arg (iocSize c.cmd) then
    some (d, ⟨-eFault, []⟩)
  else if d.lock then
    none
  else
    let r := ioctlSwitch { d with lock := true } c
    some ({ r.1 with lock := false }, r.2)

/-- Calls one after another, each with its outcome; `none` if one of them never returns. -/
def ioctlRun (d : IoctlDevice) : List Call → Option (IoctlDevice × List (Call × Outcome))
  | [] => some (d, [])
  | c :: cs =>
    match ioctlDemoIoctl d c with
    | none => none
    | some (d', out) => (ioctlRun d' cs).map fun r => (r.1, (c, out) :: r.2)

end KernelModules.Ioctl
