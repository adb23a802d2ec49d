import KernelModules.Lib.Uaccess

/-!
# The `simple_vma` character device (`vma_allocation.c`)

The four pages of the buffer come from `vmalloc`: consecutive in kernel addresses, scattered over page frames. The
kernel reaches byte `p` of the buffer through the frame of page `p / 4096`; a mapping reaches it through the frame that
`example_vma_fault` returned. What the driver relies on of `vmalloc_to_page` is a field of `Backing`.

The fault handler bounds `(address - vm_start) + (vm_pgoff << 12)` and indexes with `pgoff * 4096`; `read` and `write`
use the file position. All three are `unsigned long` arithmetic.
-/

namespace KernelModules.Vma

open Lib

def pageSize : UInt64 := 4096
def pageShift : UInt64 := 12

/-- `BUFFER_SIZE`: four pages. -/
def bufferSize : UInt64 := pageSize * 4

/-- `MAX_RW_COUNT`, the bound the VFS puts on `count`. -/
def maxRwCount : UInt64 := 0x7ffff000

def vmDontexpand : UInt64 := 0x00040000
def vmDontdump : UInt64 := 0x04000000

/-- `struct vm_area_struct`. -/
structure VmArea where
  vmStart : UInt64
  vmEnd : UInt64
  vmPgoff : UInt64
  vmFlags : UInt64
  deriving DecidableEq

/-- `struct vm_fault`. -/
structure VmFault where
  vma : VmArea
  address : UInt64
  pgoff : UInt64

/-- Page frames by number, and the bytes in each. -/
abbrev Frames := Nat → Nat → UInt8

/-- The `vmalloc` area behind `vma_dev->buffer`: its address, `vmalloc_to_page`, and the frames of its four pages, which
are distinct; `vmalloc_to_page` returns the frame of the page containing its argument. -/
structure Backing where
  buffer : UInt64
  vmallocToPage : UInt64 → Option Nat
  frame : Nat → Nat
  frame_inj : ∀ i j, i < 4 → j < 4 → frame i = frame j → i = j
  toPage : ∀ o : UInt64, o < bufferSize → vmallocToPage (buffer + o) = some (frame (o.toNat / 4096))

/-- Byte `p` of the buffer, as the kernel reads it. -/
def Backing.byte (k : Backing) (m : Frames) (p : Nat) : UInt8 := m (k.frame (p / 4096)) (p % 4096)

/-- Store `b` at offset `o` of frame `f`. -/
def poke (m : Frames) (f o : Nat) (b : UInt8) : Frames := Function.update m f (Function.update (m f) o b)

/-- The kernel stores bytes from `p` on into the buffer. -/
def Backing.fill (k : Backing) (m : Frames) : Nat → List UInt8 → Frames
  | _, [] => m
  | p, b :: bs => k.fill (poke m (k.frame (p / 4096)) (p % 4096) b) (p + 1) bs

/-- `example_vma_fault`: the frame put into `vmf->page`, or `none` for `VM_FAULT_SIGBUS`. -/
def exampleVmaFault (k : Backing) (vmf : VmFault) : Option Nat :=
  let offset := (vmf.address - vmf.vma.vmStart) + (vmf.vma.vmPgoff <<< pageShift)
  if offset ≥ bufferSize then
    none
  else
    k.vmallocToPage (k.buffer + vmf.pgoff * pageSize)

/-- What a `read` or `write` returns: its value, the file position after it, and the bytes the user copy moved. -/
structure IoResult where
  ret : Int
  ppos : UInt64
  bytes : List UInt8

/-- `example_char_read`. `intr`: the wait for the mutex is interrupted; `room`: the accessible part of the user
buffer. -/
def exampleCharRead (k : Backing) (m : Frames) (ppos count : UInt64) (intr : Bool) (room : Nat) : IoResult :=
  if intr then
    ⟨-eRestartsys, ppos, []⟩
  else if ppos ≥ bufferSize then
    ⟨0, ppos, []⟩
  else
    let count := if ppos + count > bufferSize then bufferSize - ppos else count
    let bytes := copiedOut (k.byte m) ppos.toNat count.toNat room
    if room < count.toNat then ⟨-eFault, ppos, bytes⟩ else ⟨count.toNat, ppos + count, bytes⟩

/-- `example_char_write`, with the user buffer `src`. -/
def exampleCharWrite (k : Backing) (m : Frames) (ppos count : UInt64) (src : Nat → UInt8) (intr : Bool) (room : Nat)
    (zero : Bool) : Frames × IoResult :=
  if intr then
    (m, ⟨-eRestartsys, ppos, []⟩)
  else if ppos ≥ bufferSize then
    (m, ⟨-eNospc, ppos, []⟩)
  else
    let count := if ppos + count > bufferSize then bufferSize - ppos else count
    let bytes := copiedIn src count.toNat room zero
    (k.fill m ppos.toNat bytes,
      if room < count.toNat then ⟨-eFault, ppos, bytes⟩ else ⟨count.toNat, ppos + count, bytes⟩)

/-- `example_char_mmap`: the return value and the mapping with its flags. -/
def exampleCharMmap (vma : VmArea) : Int × VmArea :=
  if vma.vmEnd - vma.vmStart > bufferSize then
    (-eInval, vma)
  else
    (0, { vma with vmFlags := vma.vmFlags ||| (vmDontexpand ||| vmDontdump) })

/-- The text `simple_vma_init` prints at the start of the buffer. -/
def greeting : List UInt8 := ascii "Hello from kernel VMA example!\n"

/-- The buffer after `simple_vma_init`: the pattern `0x42` under the greeting and its terminator. -/
def initByte (p : Nat) : UInt8 := if p = greeting.length then 0 else greeting.getD p 0x42

/-! ## Clamping -/

/-- The bytes from `ppos` on that a transfer of `count` bytes may touch. -/
def clamp (ppos count : UInt64) : Nat := min (ppos.toNat + count.toNat) bufferSize.toNat - ppos.toNat

/-- Inside the buffer, the clamped `count` of the source is `clamp`: no sum wraps. -/
theorem clamp_eq {ppos count : UInt64} (hp : ppos < bufferSize) (hc : count ≤ maxRwCount) :
    (if ppos + count > bufferSize then bufferSize - ppos else count).toNat = clamp ppos count := by
  have hb : bufferSize.toNat = 16384 := rfl
  have hm : maxRwCount.toNat = 2147479552 := rfl
  refine toNat_clamp (UInt64.le_of_lt hp) ?_
  rw [UInt64.lt_iff_toNat_lt, hb] at hp
  rw [UInt64.le_iff_toNat_le, hm] at hc
  omega

theorem clamp_outside {ppos count : UInt64} (hp : ppos ≥ bufferSize) : clamp ppos count = 0 := by
  have hp := UInt64.le_iff_toNat_le.mp hp
  unfold clamp
  omega

theorem clamp_le {ppos : UInt64} (count : UInt64) (hp : ppos < bufferSize) : ppos.toNat + clamp ppos count ≤ 16384 := by
  have hb : bufferSize.toNat = 16384 := rfl
  rw [UInt64.lt_iff_toNat_lt, hb] at hp
  unfold clamp
  omega

/-- The position after a transfer. -/
theorem ppos_add_clamp {ppos count : UInt64} {c : UInt64} (hp : ppos < bufferSize) (hc : c.toNat = clamp ppos count) :
    (ppos + c).toNat = ppos.toNat + clamp ppos count := by
  have := clamp_le count hp
  rw [UInt64.toNat_add, hc, Nat.mod_eq_of_lt (by omega)]

/-! ## Pages -/

theorem toNat_shiftRight_pageShift (x : UInt64) : (x >>> pageShift).toNat = x.toNat / 4096 := by
  have hshift : pageShift.toNat % 64 = 12 := rfl
  rw [UInt64.toNat_shiftRight, hshift, Nat.shiftRight_eq_div_pow]

end KernelModules.Vma
