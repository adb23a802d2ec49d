import KernelModules.Vma.Coherence

/-!
# Backed mappings of `simple_vma`

`example_char_mmap` bounds the size of a request (`exampleCharMmap_ret`), `example_vma_fault` the byte that an address
names, which lies `vm_pgoff` pages further. An accepted request is backed at all of its addresses only if it ends
inside the buffer (`backed_iff`), which is not what is checked (`simple_vma_backed`).
-/

namespace KernelModules.Vma

open Lib

def VmArea.size (v : VmArea) : Nat := v.vmEnd.toNat - v.vmStart.toNat

/-- The byte behind an address, as a number. -/
def VmArea.offset (v : VmArea) (a : UInt64) : Nat := a.toNat - v.vmStart.toNat + v.vmPgoff.toNat * 4096

/-- The request ends inside a buffer of `n` bytes. -/
def VmArea.Within (v : VmArea) (n : Nat) : Prop := v.vmPgoff.toNat * 4096 + v.size ≤ n

/-- A fault at any address of the mapping succeeds. -/
def Backed (k : Backing) (v : VmArea) : Prop := ∀ a, v.Has a → (handleFault k v a).isSome

section

variable {v : VmArea}

theorem toNat_size (h : v.vmStart < v.vmEnd) : (v.vmEnd - v.vmStart).toNat = v.size :=
  UInt64.toNat_sub_of_le _ _ (UInt64.le_of_lt h)

/-- Every address of a mapping names a byte before its end. -/
theorem VmArea.Has.offset_lt {a : UInt64} (h : v.Has a) : v.offset a < v.vmPgoff.toNat * 4096 + v.size := by
  have h1 := UInt64.le_iff_toNat_le.mp h.1
  have h2 := UInt64.lt_iff_toNat_lt.mp h.2
  unfold VmArea.offset VmArea.size
  omega

/-- `example_char_mmap` checks the size only. -/
theorem exampleCharMmap_ret (h : v.vmStart < v.vmEnd) :
    (exampleCharMmap v).1 = if 16384 < v.size then -eInval else 0 := by
  have hb : bufferSize.toNat = 16384 := rfl
  have hsize : v.vmEnd - v.vmStart > bufferSize ↔ 16384 < v.size := by
    rw [gt_iff_lt, UInt64.lt_iff_toNat_lt, toNat_size h, hb]
  simp only [exampleCharMmap, hsize]
  split
  · rfl
  · rfl

/-- The flags do not matter to a fault. -/
theorem backed_exampleCharMmap (k : Backing) (v : VmArea) : Backed k (exampleCharMmap v).2 ↔ Backed k v := by
  unfold exampleCharMmap
  split
  · exact Iff.rfl
  · exact Iff.rfl

theorem VmArea.Within.backed (k : Backing) (h : v.Within 16384) : Backed k v := by
  intro a ha
  have hlt := ha.offset_lt
  have hb : bufferSize.toNat = 16384 := rfl
  have hin : byteOffset v a < bufferSize := by
    rw [UInt64.lt_iff_toNat_lt, byteOffset_toNat ha.1, hb]
    unfold VmArea.Within at h
    unfold VmArea.offset at hlt
    omega
  rw [handleFault_eq k ha.1, if_pos hin]
  rfl

/-- **A mapping is backed** if and only if it ends inside the buffer, unless its offset wraps. -/
theorem backed_iff (k : Backing) (hne : v.vmStart < v.vmEnd) (hwrap : v.Within (2 ^ 64)) :
    Backed k v ↔ v.Within 16384 := by
  refine ⟨fun hall => ?_, fun h => h.backed k⟩
  have hlt := UInt64.lt_iff_toNat_lt.mp hne
  -- the last address
  have hpred : (v.vmEnd - 1).toNat = v.vmEnd.toNat - 1 :=
    UInt64.toNat_sub_of_le _ _ (UInt64.le_iff_toNat_le.mpr (Nat.lt_of_le_of_lt (Nat.zero_le _) hlt))
  have hlast : v.Has (v.vmEnd - 1) := by
    refine ⟨UInt64.le_iff_toNat_le.mpr ?_, UInt64.lt_iff_toNat_lt.mpr ?_⟩
    · omega
    · omega
  have hsome := hall _ hlast
  rw [handleFault_eq k hlast.1] at hsome
  split at hsome
  · rename_i hin
    have hb : bufferSize.toNat = 16384 := rfl
    rw [UInt64.lt_iff_toNat_lt, byteOffset_toNat hlast.1, hb, hpred] at hin
    unfold VmArea.Within VmArea.size at hwrap ⊢
    omega
  · cases hsome

/-- **Accepted mappings are backed, and requests that reach past the buffer rejected**, if and only if the request is
too large or ends inside the buffer; the first alone is so for every offset that does not wrap. -/
theorem simple_vma_backed (k : Backing) (v : VmArea) (h : v.vmStart < v.vmEnd) :
    ((((exampleCharMmap v).1 = 0 → Backed k (exampleCharMmap v).2) ∧
        (¬v.Within 16384 → (exampleCharMmap v).1 = -eInval)) ↔ 16384 < v.size ∨ v.Within 16384) ∧
      (v.Within (2 ^ 64) →
        (((exampleCharMmap v).1 = 0 → Backed k (exampleCharMmap v).2) ↔ 16384 < v.size ∨ v.Within 16384)) := by
  rw [backed_exampleCharMmap, exampleCharMmap_ret h]
  have hinval : -eInval ≠ 0 := by decide
  rcases Nat.lt_or_ge 16384 v.size with hlarge | hsmall
  · -- the request is rejected
    rw [if_pos hlarge]
    simp [hinval, hlarge]
  · have hle := Nat.not_lt.mpr hsmall
    rw [if_neg hle]
    simp only [hle, true_implies, false_or, hinval.symm, imp_false, not_not]
    exact ⟨⟨fun hboth => hboth.2, fun hin => ⟨hin.backed k, hin⟩⟩, backed_iff k h⟩

end

/-- Pages 1 and 2 of the buffer. -/
theorem simple_vma_backed_middlePages :
    (exampleCharMmap middlePages).1 = 0 ∧ Backed lowFrames (exampleCharMmap middlePages).2 :=
  ⟨rfl, ((simple_vma_backed lowFrames middlePages (by decide)).1.mpr (.inr (by
    unfold VmArea.Within
    decide))).1 rfl⟩

/-- Four pages from the second page of the buffer on: accepted, without a fifth page. -/
theorem simple_vma_backed_sigbus : (exampleCharMmap ⟨0x10000, 0x14000, 1, 0⟩).1 = 0 ∧
    handleFault lowFrames (exampleCharMmap ⟨0x10000, 0x14000, 1, 0⟩).2 0x13000 = none := by
  decide

end KernelModules.Vma
