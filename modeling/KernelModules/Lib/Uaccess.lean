import KernelModules.Lib.FlatArray

/-!
# Error codes and copies between kernel and user memory

A user buffer is given by its contents and by `room`, the number of bytes from its start that can be accessed. A copy of
`n` bytes faults iff `room < n`. A faulting `copy_from_user` has stored the accessible bytes; it leaves the rest of the
destination alone or zeroes it, depending on the architecture.
-/

namespace KernelModules.Lib

def eAgain : Int := 11
def eNomem : Int := 12
def eFault : Int := 14
def eExist : Int := 17
def eInval : Int := 22
def eNotty : Int := 25
def eNospc : Int := 28
def eRange : Int := 34
def eRestartsys : Int := 512

/-- The bytes of an ASCII string literal, without its terminator. -/
def ascii (s : String) : List UInt8 := s.toList.map fun c => UInt8.ofNat c.toNat

/-- The bytes that `copy_to_user(dst, src + s, n)` delivers. -/
def copiedOut (src : Nat → UInt8) (s n room : Nat) : List UInt8 := slice src s (min n room)

/-- The bytes that `copy_from_user(dst, src, n)` stores; `zero` is whether a fault zeroes the rest. -/
def copiedIn (src : Nat → UInt8) (n room : Nat) (zero : Bool) : List UInt8 :=
  if room < n then slice src 0 room ++ (if zero then List.replicate (n - room) 0 else []) else slice src 0 n

@[simp] theorem length_copiedOut (src : Nat → UInt8) (s n room : Nat) :
    (copiedOut src s n room).length = min n room := length_slice src s _

/-- A copy into the kernel never stores more than it was asked to. -/
theorem length_copiedIn_le (src : Nat → UInt8) (n room : Nat) (zero : Bool) :
    (copiedIn src n room zero).length ≤ n := by
  unfold copiedIn
  split
  · cases zero <;> simp <;> omega
  · simp

theorem copiedIn_ok {src : Nat → UInt8} {n room : Nat} {zero : Bool} (h : n ≤ room) :
    copiedIn src n room zero = slice src 0 n := if_neg (by omega)

/-- The `count` of a transfer from `ppos` on, cut at `len`, unless the sum wraps. -/
theorem toNat_clamp {ppos count len : UInt64} (hp : ppos ≤ len) (hsum : ppos.toNat + count.toNat < 2 ^ 64) :
    (if ppos + count > len then len - ppos else count).toNat =
      min (ppos.toNat + count.toNat) len.toNat - ppos.toNat := by
  have hadd : (ppos + count).toNat = ppos.toNat + count.toNat := by
    rw [UInt64.toNat_add, Nat.mod_eq_of_lt hsum]
  split
  · rename_i h
    rw [gt_iff_lt, UInt64.lt_iff_toNat_lt, hadd] at h
    rw [UInt64.toNat_sub_of_le _ _ hp]
    omega
  · rename_i h
    rw [gt_iff_lt, UInt64.lt_iff_toNat_lt, hadd] at h
    omega

end KernelModules.Lib
