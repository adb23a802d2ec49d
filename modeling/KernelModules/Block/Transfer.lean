import KernelModules.Block.SimpleBlock

/-!
# What the bounds check lets through

`simple_transfer` multiplies and adds in `unsigned long` and then compares with the size. `transferRange` is the range
it copies, if the check lets it (`simpleTransfer_eq`).

`exactTransfer` is the check over unbounded numbers. The driver agrees with it unless the end of the request, reduced
modulo `2^64`, falls back inside the device (`simple_transfer_bounds`).
-/

namespace KernelModules.Block

open Lib

/-! ## One transfer -/

/-- The size of the device as a number. -/
def SimpleBlockDev.bytes (dev : SimpleBlockDev) : Nat := dev.size.toNatClampNeg

/-- `n` bytes copied between offset `o` of the device and the start of the buffer. -/
def copyBytes (dev : SimpleBlockDev) (o n : Nat) (buffer : Nat → UInt8) : Dir → SimpleBlockDev × (Nat → UInt8)
  | .write => ({ dev with data := memcpy dev.data o buffer 0 n }, buffer)
  | .read => (dev, memcpy buffer 0 dev.data o n)

/-- The offset and the length of the copy that `simple_transfer` makes, or none if the check refuses. -/
def transferRange (size : Int32) (sector nsect : UInt64) : Option (Nat × Nat) :=
  let offset := sector * UInt64.ofNat kernelSectorSize
  let nbytes := nsect * UInt64.ofNat kernelSectorSize
  if BeyondEnd size offset nbytes then none else some (offset.toNat, nbytes.toNat)

/-- The check over unbounded numbers: the range is copied if it lies inside the device. -/
def exactTransfer (dev : SimpleBlockDev) (sector nsect : Nat) (buffer : Nat → UInt8) (dir : Dir) :
    SimpleBlockDev × (Nat → UInt8) :=
  if sector * kernelSectorSize + nsect * kernelSectorSize ≤ dev.bytes then
    copyBytes dev (sector * kernelSectorSize) (nsect * kernelSectorSize) buffer dir
  else (dev, buffer)

section Transfer

variable {dev : SimpleBlockDev} {sector nsect : UInt64}

/-- **One transfer** copies the range that the check lets through. -/
theorem simpleTransfer_eq (dev : SimpleBlockDev) (sector nsect : UInt64) (buffer : Nat → UInt8) (dir : Dir) :
    simpleTransfer dev sector nsect buffer dir = match transferRange dev.size sector nsect with
      | none => (dev, buffer)
      | some (o, n) => copyBytes dev o n buffer dir := by
  unfold simpleTransfer transferRange
  by_cases hcheck : BeyondEnd dev.size (sector * UInt64.ofNat kernelSectorSize) (nsect * UInt64.ofNat kernelSectorSize)
  · simp only [if_pos hcheck]
  · simp only [if_neg hcheck]
    cases dir <;> rfl

/-- A size that is not negative is compared as it is. -/
theorem toNat_size (h : 0 ≤ dev.size.toInt) : dev.size.toInt64.toUInt64.toNat = dev.bytes := by
  have h64 : dev.size.toInt64.toBitVec.toInt = dev.size.toInt := Int32.toInt_toInt64 dev.size
  have hcond := dev.size.toInt64.toBitVec.toInt_eq_toNat_cond
  have hlt := dev.size.toInt64.toBitVec.isLt
  show dev.size.toInt64.toBitVec.toNat = dev.size.toInt.toNat
  rw [h64] at hcond
  split at hcond <;> omega

theorem bytes_lt (dev : SimpleBlockDev) : dev.bytes < 2 ^ 31 := by
  have h := Int32.toInt_lt dev.size
  simp only [SimpleBlockDev.bytes, Int32.toNatClampNeg]
  omega

/-- Products of sectors are reduced. -/
theorem toNat_mul_sectorSize (n : UInt64) :
    (n * UInt64.ofNat kernelSectorSize).toNat = n.toNat * kernelSectorSize % 2 ^ 64 := by
  rw [UInt64.toNat_mul]
  rfl

/-- The range in numbers. -/
theorem transferRange_eq (h : 0 ≤ dev.size.toInt) (sector nsect : UInt64) :
    transferRange dev.size sector nsect =
      if (sector.toNat * kernelSectorSize + nsect.toNat * kernelSectorSize) % 2 ^ 64 ≤ dev.bytes then
        some (sector.toNat * kernelSectorSize % 2 ^ 64, nsect.toNat * kernelSectorSize % 2 ^ 64)
      else none := by
  have hend : (sector * UInt64.ofNat kernelSectorSize + nsect * UInt64.ofNat kernelSectorSize).toNat =
      (sector.toNat * kernelSectorSize + nsect.toNat * kernelSectorSize) % 2 ^ 64 := by
    rw [UInt64.toNat_add, toNat_mul_sectorSize, toNat_mul_sectorSize]
    exact (Nat.add_mod _ _ _).symm
  simp only [transferRange, gt_iff_lt, UInt64.lt_iff_toNat_lt, hend, toNat_size h, toNat_mul_sectorSize]
  by_cases hin : (sector.toNat * kernelSectorSize + nsect.toNat * kernelSectorSize) % 2 ^ 64 ≤ dev.bytes
  · rw [if_pos hin, if_neg (Nat.not_lt.mpr hin)]
  · rw [if_neg hin, if_pos (Nat.lt_of_not_le hin)]

/-- Without wrapping the range is the one asked for. -/
theorem transferRange_of_lt (h : 0 ≤ dev.size.toInt)
    (hlt : sector.toNat * kernelSectorSize + nsect.toNat * kernelSectorSize < 2 ^ 64) :
    transferRange dev.size sector nsect =
      if sector.toNat * kernelSectorSize + nsect.toNat * kernelSectorSize ≤ dev.bytes then
        some (sector.toNat * kernelSectorSize, nsect.toNat * kernelSectorSize)
      else none := by
  rw [transferRange_eq h, Nat.mod_eq_of_lt hlt, Nat.mod_eq_of_lt (by omega), Nat.mod_eq_of_lt (by omega)]

theorem BioVec.toNat_nsect (bv : BioVec) : bv.nsect.toNat = bv.bvLen.toNat / kernelSectorSize := by
  rw [BioVec.nsect, UInt32.toNat_toUInt64, UInt32.toNat_div]
  rfl

/-- Copying nothing. -/
theorem copyBytes_zero (dev : SimpleBlockDev) (o : Nat) (buffer : Nat → UInt8) (dir : Dir) :
    copyBytes dev o 0 buffer dir = (dev, buffer) := by
  cases dir with
  | read => simp only [copyBytes, memcpy_zero]
  | write => simp only [copyBytes, memcpy_zero]

/-- A copy of some bytes can be seen. -/
theorem copyBytes_ne {size : Int32} {o n : Nat} (hn : 0 < n) :
    copyBytes ⟨size, fun _ => 0⟩ o n (fun _ => 1) .write ≠ (⟨size, fun _ => 0⟩, fun _ => 1) := by
  intro h
  have hdata : memcpy (fun _ => (0 : UInt8)) o (fun _ => 1) 0 n = fun _ => 0 :=
    congrArg (fun r : SimpleBlockDev × (Nat → UInt8) => r.1.data) h
  have ho := congrFun hdata o
  rw [memcpy, if_pos ⟨Nat.le_refl o, by omega⟩] at ho
  exact absurd ho (by decide)

end Transfer

/-- **The bounds check.** Whatever the contents, the driver does what the unbounded check says exactly if the end of the
request does not wrap, or wraps to a number beyond the device, or the length wraps to nothing. -/
theorem simple_transfer_bounds (size : Int32) (hsize : 0 ≤ size.toInt) (sector nsect : UInt64) :
    (∀ data buffer dir, simpleTransfer ⟨size, data⟩ sector nsect buffer dir =
        exactTransfer ⟨size, data⟩ sector.toNat nsect.toNat buffer dir) ↔
      sector.toNat * kernelSectorSize + nsect.toNat * kernelSectorSize < 2 ^ 64 ∨
      size.toInt < (sector.toNat * kernelSectorSize + nsect.toNat * kernelSectorSize) % 2 ^ 64 ∨
      nsect.toNat * kernelSectorSize % 2 ^ 64 = 0 := by
  have hdev : ∀ data, 0 ≤ (⟨size, data⟩ : SimpleBlockDev).size.toInt := fun _ => hsize
  have hbytes : ∀ data, (⟨size, data⟩ : SimpleBlockDev).bytes = size.toInt.toNat := fun _ => rfl
  have hlt : size.toInt.toNat < 2 ^ 31 := bytes_lt ⟨size, fun _ => 0⟩
  by_cases hwrap : sector.toNat * kernelSectorSize + nsect.toNat * kernelSectorSize < 2 ^ 64
  · refine iff_of_true (fun data buffer dir => ?_) (.inl hwrap)
    rw [simpleTransfer_eq, transferRange_of_lt (hdev data) hwrap, exactTransfer, hbytes]
    by_cases hin : sector.toNat * kernelSectorSize + nsect.toNat * kernelSectorSize ≤ size.toInt.toNat
    · rw [if_pos hin, if_pos hin]
    · rw [if_neg hin, if_neg hin]
  · -- out of range: nothing may be copied
    have hout : ∀ data buffer dir,
        exactTransfer ⟨size, data⟩ sector.toNat nsect.toNat buffer dir = (⟨size, data⟩, buffer) := by
      intro data buffer dir
      rw [exactTransfer, if_neg (by rw [hbytes]; omega)]
    by_cases hin : (sector.toNat * kernelSectorSize + nsect.toNat * kernelSectorSize) % 2 ^ 64 ≤ size.toInt.toNat
    · have hrange : transferRange size sector nsect =
          some (sector.toNat * kernelSectorSize % 2 ^ 64, nsect.toNat * kernelSectorSize % 2 ^ 64) :=
        (transferRange_eq (hdev fun _ => 0) sector nsect).trans (if_pos hin)
      constructor
      · intro h
        refine .inr (.inr ?_)
        have hseen := h (fun _ => 0) (fun _ => 1) .write
        rw [hout, simpleTransfer_eq, hrange] at hseen
        exact Nat.eq_zero_of_not_pos fun hpos => copyBytes_ne hpos hseen
      · rintro (h | h | h) data buffer dir
        · exact absurd h hwrap
        · omega
        · rw [hout, simpleTransfer_eq, hrange, h]
          exact copyBytes_zero _ _ _ _
    · refine iff_of_true (fun data buffer dir => ?_) (.inr (.inl (by omega)))
      have hrange : transferRange size sector nsect = none :=
        (transferRange_eq (hdev fun _ => 0) sector nsect).trans (if_neg hin)
      rw [hout, simpleTransfer_eq, hrange]

theorem simple_transfer_bounds_threeSectors :
    0 ≤ (Int32.ofNat simpleBlockSize).toInt ∧ ∀ data buffer dir,
      simpleTransfer ⟨Int32.ofNat simpleBlockSize, data⟩ 2045 3 buffer dir =
        exactTransfer ⟨Int32.ofNat simpleBlockSize, data⟩ 2045 3 buffer dir :=
  ⟨by decide, (simple_transfer_bounds _ (by decide) 2045 3).mpr (.inl (by decide))⟩

/-- Sector `2^55` lies far behind the device, but its offset wraps to 0: the write lands at the start. -/
theorem simple_transfer_redirected :
    (simpleTransfer ⟨Int32.ofNat simpleBlockSize, fun _ => 0⟩ 36028797018963968 1 (fun _ => 1) .write).1.data 0 = 1 ∧
    (exactTransfer ⟨Int32.ofNat simpleBlockSize, fun _ => 0⟩ 36028797018963968 1 (fun _ => 1) .write).1.data 0 = 0 := by
  decide

end KernelModules.Block
