import KernelModules.Lib.Runs
import KernelModules.Vma.SimpleVma

/-!
# Mapped and file accesses of `simple_vma` are coherent

The device in its surroundings: any number of address spaces with mappings accepted by `example_char_mmap`, their page
tables, and calls of `read` and `write`. The kernel splits a mapping by adjusting `vm_start` and `vm_pgoff` together,
unmaps pieces and drops page-table entries at any time; a load or store goes through the entry of its page, after
`example_vma_fault` has provided it.

- `handleFault_eq`: a fault at `a` yields the frame of byte `(a - vm_start) + vm_pgoff * 4096`, or `SIGBUS` if that
  byte is past the buffer, although the handler bounds one expression and indexes with another;
- `Inv`: mappings are page-aligned and disjoint, and every page-table entry is what a fault would return; every step
  keeps it (`step_inv`);
- every step serves its accesses from the one array behind the buffer (`step_serves`); hence loads return the last
  stored byte, whichever path stored it (`simple_vma_coherent`).
-/

namespace KernelModules.Vma

open Lib

/-! ## Mappings and faults -/

/-- The byte of the buffer that address `a` of a mapping names. -/
def byteOffset (v : VmArea) (a : UInt64) : UInt64 := (a - v.vmStart) + v.vmPgoff * pageSize

def VmArea.Has (v : VmArea) (a : UInt64) : Prop := v.vmStart ≤ a ∧ a < v.vmEnd

def VmArea.Aligned (v : VmArea) : Prop := v.vmStart.toNat % 4096 = 0 ∧ v.vmEnd.toNat % 4096 = 0

/-- The kernel calls the fault handler with the page offset of the faulting address. -/
def handleFault (k : Backing) (v : VmArea) (address : UInt64) : Option Nat :=
  exampleVmaFault k ⟨v, address, ((address - v.vmStart) >>> pageShift) + v.vmPgoff⟩

theorem byteOffset_toNat {v : VmArea} {a : UInt64} (h : v.vmStart ≤ a) :
    (byteOffset v a).toNat = (a.toNat - v.vmStart.toNat + v.vmPgoff.toNat * 4096) % 2 ^ 64 := by
  have hs : pageSize.toNat = 4096 := rfl
  rw [byteOffset, UInt64.toNat_add, UInt64.toNat_sub_of_le _ _ h, UInt64.toNat_mul, hs, Nat.add_mod_mod]

/-- The handler's bound is on the byte the address names. -/
theorem fault_offset (v : VmArea) (a : UInt64) : (a - v.vmStart) + (v.vmPgoff <<< pageShift) = byteOffset v a := by
  have hs : v.vmPgoff <<< pageShift = v.vmPgoff * pageSize := by
    apply UInt64.toNat_inj.mp
    have h1 : pageShift.toNat % 64 = 12 := rfl
    have h2 : pageSize.toNat = 4096 := rfl
    rw [UInt64.toNat_shiftLeft, UInt64.toNat_mul, h1, h2, Nat.shiftLeft_eq]
  rw [hs, byteOffset]

/-- The handler's index is the page of the byte the address names. -/
theorem fault_index {v : VmArea} {a : UInt64} (h : v.vmStart ≤ a) (hin : byteOffset v a < bufferSize) :
    ((((a - v.vmStart) >>> pageShift) + v.vmPgoff) * pageSize).toNat = (byteOffset v a).toNat / 4096 * 4096 := by
  have hb : bufferSize.toNat = 16384 := rfl
  have hs : pageSize.toNat = 4096 := rfl
  rw [UInt64.lt_iff_toNat_lt, byteOffset_toNat h, hb] at hin
  rw [byteOffset_toNat h, UInt64.toNat_mul, UInt64.toNat_add, toNat_shiftRight_pageShift, hs,
    UInt64.toNat_sub_of_le _ _ h]
  generalize a.toNat - v.vmStart.toNat = x at hin ⊢
  generalize v.vmPgoff.toNat = g at hin ⊢
  omega

/-- **Faults.** The frame of the byte named by the address, or `SIGBUS` past the buffer. -/
theorem handleFault_eq (k : Backing) {v : VmArea} {a : UInt64} (h : v.vmStart ≤ a) :
    handleFault k v a =
      if byteOffset v a < bufferSize then some (k.frame ((byteOffset v a).toNat / 4096)) else none := by
  simp only [handleFault, exampleVmaFault, fault_offset]
  by_cases hin : byteOffset v a < bufferSize
  · have hidx := fault_index h hin
    have hlt : ((((a - v.vmStart) >>> pageShift) + v.vmPgoff) * pageSize) < bufferSize := by
      have hb : bufferSize.toNat = 16384 := rfl
      rw [UInt64.lt_iff_toNat_lt] at hin ⊢
      rw [hidx]
      omega
    rw [if_neg (UInt64.not_le.mpr hin), if_pos hin, k.toPage _ hlt, hidx, Nat.mul_div_cancel _ (by omega)]
  · rw [if_pos (UInt64.not_lt.mp hin), if_neg hin]

/-- Addresses of one page lie in the same mappings. -/
theorem VmArea.Aligned.has_page {v : VmArea} (hv : v.Aligned) {a a' : UInt64} (hpage : a / pageSize = a' / pageSize)
    (ha : v.Has a) : v.Has a' := by
  have hs : pageSize.toNat = 4096 := rfl
  have hpage := congrArg UInt64.toNat hpage
  obtain ⟨h1, h2⟩ := ha
  obtain ⟨hv1, hv2⟩ := hv
  rw [UInt64.toNat_div, UInt64.toNat_div, hs] at hpage
  rw [UInt64.le_iff_toNat_le] at h1
  rw [UInt64.lt_iff_toNat_lt] at h2
  exact ⟨UInt64.le_iff_toNat_le.mpr (by omega), UInt64.lt_iff_toNat_lt.mpr (by omega)⟩

/-- Addresses of one page name bytes of one page of the buffer. -/
theorem VmArea.Aligned.offset_page {v : VmArea} (hv : v.Aligned) {a a' : UInt64}
    (hpage : a / pageSize = a' / pageSize) (ha : v.Has a) :
    (byteOffset v a).toNat / 4096 = (byteOffset v a').toNat / 4096 := by
  have hs : pageSize.toNat = 4096 := rfl
  have ha' := hv.has_page hpage ha
  have hpage := congrArg UInt64.toNat hpage
  rw [byteOffset_toNat ha.1, byteOffset_toNat ha'.1]
  have h1 := UInt64.le_iff_toNat_le.mp ha.1
  have h2 := UInt64.le_iff_toNat_le.mp ha'.1
  obtain ⟨hv1, _⟩ := hv
  rw [UInt64.toNat_div, UInt64.toNat_div, hs] at hpage
  generalize v.vmPgoff.toNat = g
  generalize v.vmStart.toNat = b at *
  generalize a.toNat = x at *
  generalize a'.toNat = y at *
  omega

/-- The offset of an address within its page is the offset of its byte. -/
theorem VmArea.Aligned.offset_mod {v : VmArea} (hv : v.Aligned) {a : UInt64} (ha : v.Has a) :
    (byteOffset v a).toNat % 4096 = a.toNat % 4096 := by
  have h1 := UInt64.le_iff_toNat_le.mp ha.1
  obtain ⟨hv1, _⟩ := hv
  rw [byteOffset_toNat ha.1]
  generalize v.vmPgoff.toNat = g
  generalize v.vmStart.toNat = b at *
  omega

/-! ## The system -/

/-- Page frames, mappings by address space, and page tables by address space and page number. -/
structure State where
  frames : Frames
  vmas : List (Nat × VmArea)
  pte : Nat → UInt64 → Option Nat

/-- What happens, with what its caller sees: mapped accesses name their mapping, calls carry their result. -/
inductive Event where
  | read (ppos count : UInt64) (intr : Bool) (room : Nat) (res : IoResult)
  | write (ppos count : UInt64) (src : Nat → UInt8) (intr : Bool) (room : Nat) (zero : Bool) (res : IoResult)
  | mmap (mm : Nat) (v : VmArea) (ret : Int)
  | split (mm : Nat) (v : VmArea) (addr : UInt64)
  | munmap (mm : Nat) (v : VmArea)
  | zap (mm : Nat) (page : UInt64)
  | load (mm : Nat) (v : VmArea) (a : UInt64) (b : UInt8)
  | store (mm : Nat) (v : VmArea) (a : UInt64) (b : UInt8)
  | sigbus (mm : Nat) (v : VmArea) (a : UInt64)

/-- The lower piece of a mapping split at `addr`. -/
def VmArea.below (v : VmArea) (addr : UInt64) : VmArea := { v with vmEnd := addr }

/-- The upper piece: `vm_start` and `vm_pgoff` move together. -/
def VmArea.above (v : VmArea) (addr : UInt64) : VmArea :=
  { v with vmStart := addr, vmPgoff := v.vmPgoff + ((addr - v.vmStart) >>> pageShift) }

/-- The frame behind address `a`: the page-table entry, or else the one a fault at `address` installs. -/
def translate (k : Backing) (s : State) (mm : Nat) (v : VmArea) (a address : UInt64) : Option (State × Nat) :=
  match s.pte mm (a / pageSize) with
  | some f => some (s, f)
  | none =>
    match handleFault k v address with
    | some f => some ({ s with pte := Function.update s.pte mm (Function.update (s.pte mm) (a / pageSize) (some f)) },
      f)
    | none => none

/-- The page tables without the entries of a mapping. -/
def dropEntries (pte : Nat → UInt64 → Option Nat) (mm : Nat) (v : VmArea) : Nat → UInt64 → Option Nat := fun mm' page =>
  if mm' = mm ∧ v.vmStart / pageSize ≤ page ∧ page < v.vmEnd / pageSize then none else pte mm' page

/-- Steps. The fault handler is called with some address of the page: the faulting address or the start of its page. -/
inductive Step (k : Backing) : State → Event → State → Prop
  | read {s : State} {ppos count : UInt64} {intr : Bool} {room : Nat} : count ≤ maxRwCount →
      Step k s (.read ppos count intr room (exampleCharRead k s.frames ppos count intr room)) s
  | write {s : State} {ppos count : UInt64} {src : Nat → UInt8} {intr : Bool} {room : Nat} {zero : Bool} :
      count ≤ maxRwCount →
      Step k s (.write ppos count src intr room zero (exampleCharWrite k s.frames ppos count src intr room zero).2)
        { s with frames := (exampleCharWrite k s.frames ppos count src intr room zero).1 }
  | mmap {s : State} {mm : Nat} {v : VmArea} : v.Aligned → (∀ w, (mm, w) ∈ s.vmas → ∀ a, v.Has a → ¬ w.Has a) →
      (exampleCharMmap v).1 = 0 →
      Step k s (.mmap mm (exampleCharMmap v).2 0) { s with vmas := (mm, (exampleCharMmap v).2) :: s.vmas }
  | mmapRejected {s : State} {mm : Nat} {v : VmArea} : (exampleCharMmap v).1 ≠ 0 →
      Step k s (.mmap mm v (exampleCharMmap v).1) s
  | split {s : State} {mm : Nat} {v : VmArea} {addr : UInt64} : (mm, v) ∈ s.vmas → addr.toNat % 4096 = 0 →
      v.vmStart < addr → addr < v.vmEnd →
      Step k s (.split mm v addr)
        { s with vmas := (mm, v.below addr) :: (mm, v.above addr) :: s.vmas.filter (· ≠ (mm, v)) }
  | munmap {s : State} {mm : Nat} {v : VmArea} : (mm, v) ∈ s.vmas →
      Step k s (.munmap mm v) { s with vmas := s.vmas.filter (· ≠ (mm, v)), pte := dropEntries s.pte mm v }
  | zap {s : State} {mm : Nat} {page : UInt64} :
      Step k s (.zap mm page) { s with pte := Function.update s.pte mm (Function.update (s.pte mm) page none) }
  | load {s s' : State} {mm : Nat} {v : VmArea} {a address : UInt64} {f : Nat} : (mm, v) ∈ s.vmas → v.Has a →
      address / pageSize = a / pageSize → translate k s mm v a address = some (s', f) →
      Step k s (.load mm v a (s'.frames f (a.toNat % 4096))) s'
  | store {s s' : State} {mm : Nat} {v : VmArea} {a address : UInt64} {f : Nat} {b : UInt8} : (mm, v) ∈ s.vmas →
      v.Has a → address / pageSize = a / pageSize → translate k s mm v a address = some (s', f) →
      Step k s (.store mm v a b) { s' with frames := poke s'.frames f (a.toNat % 4096) b }
  | sigbus {s : State} {mm : Nat} {v : VmArea} {a address : UInt64} : (mm, v) ∈ s.vmas → v.Has a →
      address / pageSize = a / pageSize → translate k s mm v a address = none → Step k s (.sigbus mm v a) s

/-- Nothing is mapped and the buffer is as `simple_vma_init` left it. -/
def system (k : Backing) : System State Event where
  init s := s.vmas = [] ∧ (∀ mm page, s.pte mm page = none) ∧ ∀ p < 16384, k.byte s.frames p = initByte p
  step := Step k

/-! ## The invariant -/

/-- Mappings are aligned and disjoint, and a page-table entry is what a fault would return. -/
structure Inv (k : Backing) (s : State) : Prop where
  aligned : ∀ mm v, (mm, v) ∈ s.vmas → v.Aligned
  disjoint : ∀ mm v w a, (mm, v) ∈ s.vmas → (mm, w) ∈ s.vmas → v.Has a → w.Has a → v = w
  entry : ∀ mm a f, s.pte mm (a / pageSize) = some f → ∃ v, (mm, v) ∈ s.vmas ∧ v.Has a ∧
    byteOffset v a < bufferSize ∧ f = k.frame ((byteOffset v a).toNat / 4096)

theorem toNat_lt_of_lt_bufferSize {o : UInt64} (h : o < bufferSize) : o.toNat < 16384 := UInt64.lt_iff_toNat_lt.mp h

theorem offset_lt_iff (o : UInt64) : o < bufferSize ↔ o.toNat / 4096 < 4 := by
  have hb : bufferSize.toNat = 16384 := rfl
  rw [UInt64.lt_iff_toNat_lt, hb]
  omega

section Translate

variable {k : Backing} {s s' : State} {mm : Nat} {v : VmArea} {a address : UInt64} {f : Nat}

/-- **Translation** reaches the frame of the byte that the address names. -/
theorem translate_some (hs : Inv k s) (hv : (mm, v) ∈ s.vmas) (ha : v.Has a) (haddr : address / pageSize = a / pageSize)
    (h : translate k s mm v a address = some (s', f)) :
    byteOffset v a < bufferSize ∧ f = k.frame ((byteOffset v a).toNat / 4096) ∧ s'.frames = s.frames ∧ Inv k s' := by
  have hal := hs.aligned mm v hv
  unfold translate at h
  cases hp : s.pte mm (a / pageSize) with
  | some f' =>
    simp only [hp, Option.some.injEq, Prod.mk.injEq] at h
    obtain ⟨rfl, rfl⟩ := h
    obtain ⟨w, hw, hwa, hin, hf⟩ := hs.entry mm a f' hp
    obtain rfl := hs.disjoint mm v w a hv hw ha hwa
    exact ⟨hin, hf, rfl, hs⟩
  | none =>
    have hpage := hal.offset_page haddr.symm ha
    simp only [hp, handleFault_eq k (hal.has_page haddr.symm ha).1, offset_lt_iff, ← hpage] at h
    split at h
    · rename_i f' hf
      simp only [Option.some.injEq, Prod.mk.injEq] at h
      obtain ⟨rfl, rfl⟩ := h
      split at hf
      · rename_i hin
        obtain rfl := Option.some.inj hf
        refine ⟨(offset_lt_iff _).mpr hin, rfl, rfl, hs.aligned, hs.disjoint, ?_⟩
        -- the new entry serves every address of its page, the others are old
        intro mm' a' f'' he
        by_cases hmm : mm' = mm
        · subst hmm
          by_cases hpa : a' / pageSize = a / pageSize
          · simp only [hpa, Function.update_self, Option.some.injEq] at he
            subst he
            have hpage' := hal.offset_page hpa.symm ha
            exact ⟨v, hv, hal.has_page hpa.symm ha, (offset_lt_iff _).mpr (hpage' ▸ hin), by rw [hpage']⟩
          · simp only [Function.update_self, Function.update_of_ne hpa] at he
            exact hs.entry _ a' f'' he
        · simp only [Function.update_of_ne hmm] at he
          exact hs.entry mm' a' f'' he
      · cases hf
    · cases h

/-- Translation fails only past the buffer. -/
theorem translate_none (hs : Inv k s) (hv : (mm, v) ∈ s.vmas) (ha : v.Has a) (haddr : address / pageSize = a / pageSize)
    (h : translate k s mm v a address = none) : bufferSize ≤ byteOffset v a := by
  have hal := hs.aligned mm v hv
  have hpage := hal.offset_page haddr.symm ha
  unfold translate at h
  cases hp : s.pte mm (a / pageSize) with
  | some f' => simp [hp] at h
  | none =>
    simp only [hp, handleFault_eq k (hal.has_page haddr.symm ha).1, offset_lt_iff, ← hpage] at h
    rw [← UInt64.not_lt, offset_lt_iff]
    intro hin
    simp [hin] at h

end Translate

/-! ## Mapping, splitting, unmapping -/

/-- The upper piece names the bytes that the whole mapping named. -/
theorem byteOffset_above {v : VmArea} {addr a : UInt64} (hv : v.Aligned) (haddr : addr.toNat % 4096 = 0)
    (hlt : v.vmStart < addr) (ha : addr ≤ a) : byteOffset (v.above addr) a = byteOffset v a := by
  have hle : v.vmStart ≤ addr := UInt64.le_of_lt hlt
  apply UInt64.toNat_inj.mp
  rw [byteOffset_toNat (v := v) (UInt64.le_trans hle ha), byteOffset_toNat (v := v.above addr) ha]
  simp only [VmArea.above, UInt64.toNat_add, toNat_shiftRight_pageShift, UInt64.toNat_sub_of_le _ _ hle]
  obtain ⟨hv1, _⟩ := hv
  rw [UInt64.le_iff_toNat_le] at hle ha
  generalize v.vmPgoff.toNat = g
  generalize v.vmStart.toNat = b at *
  generalize addr.toNat = c at *
  generalize a.toNat = x at *
  omega

section Mappings

variable {k : Backing} {s : State} {mm : Nat} {v : VmArea}

theorem mem_filter_ne {x : Nat × VmArea} {l : List (Nat × VmArea)} {y : Nat × VmArea} :
    x ∈ l.filter (· ≠ y) ↔ x ∈ l ∧ x ≠ y := by simp

theorem mmap_inv (hs : Inv k s) (hal : v.Aligned) (hfree : ∀ w, (mm, w) ∈ s.vmas → ∀ a, v.Has a → ¬ w.Has a) :
    Inv k { s with vmas := (mm, v) :: s.vmas } := by
  refine ⟨?_, ?_, ?_⟩
  · intro mm' w hw
    rcases List.mem_cons.mp hw with h | h
    · obtain ⟨_, rfl⟩ := Prod.mk.inj h
      exact hal
    · exact hs.aligned mm' w h
  · intro mm' w w' a hw hw' ha ha'
    rcases List.mem_cons.mp hw with h | h <;> rcases List.mem_cons.mp hw' with h' | h'
    · rw [(Prod.mk.inj h).2, (Prod.mk.inj h').2]
    · obtain ⟨rfl, rfl⟩ := Prod.mk.inj h
      exact absurd ha' (hfree w' h' a ha)
    · obtain ⟨rfl, rfl⟩ := Prod.mk.inj h'
      exact absurd ha (hfree w h a ha')
    · exact hs.disjoint mm' w w' a h h' ha ha'
  · intro mm' a f he
    obtain ⟨w, hw, h⟩ := hs.entry mm' a f he
    exact ⟨w, List.mem_cons_of_mem _ hw, h⟩

/-- A mapping after a split is a piece of the split one or an old one. -/
theorem mem_split {addr : UInt64} {mm' : Nat} {w : VmArea}
    (hw : (mm', w) ∈ (mm, v.below addr) :: (mm, v.above addr) :: s.vmas.filter (· ≠ (mm, v))) :
    (mm' = mm ∧ (w = v.below addr ∨ w = v.above addr)) ∨ ((mm', w) ∈ s.vmas ∧ (mm', w) ≠ (mm, v)) := by
  simp only [List.mem_cons, Prod.mk.injEq, mem_filter_ne] at hw
  rcases hw with ⟨rfl, rfl⟩ | ⟨rfl, rfl⟩ | h
  · exact .inl ⟨rfl, .inl rfl⟩
  · exact .inl ⟨rfl, .inr rfl⟩
  · exact .inr h

theorem split_inv {addr : UInt64} (hs : Inv k s) (hv : (mm, v) ∈ s.vmas) (haddr : addr.toNat % 4096 = 0)
    (h1 : v.vmStart < addr) (h2 : addr < v.vmEnd) :
    Inv k { s with vmas := (mm, v.below addr) :: (mm, v.above addr) :: s.vmas.filter (· ≠ (mm, v)) } := by
  have hal := hs.aligned mm v hv
  -- a piece lies in the mapping it was cut from
  have hpiece : ∀ w a, (w = v.below addr ∨ w = v.above addr) → w.Has a → v.Has a := by
    rintro w a (rfl | rfl) ⟨hl, hu⟩
    · exact ⟨hl, UInt64.lt_trans hu h2⟩
    · exact ⟨UInt64.le_trans (UInt64.le_of_lt h1) hl, hu⟩
  refine ⟨?_, ?_, ?_⟩
  · intro mm' w hw
    rcases mem_split hw with ⟨_, rfl | rfl⟩ | ⟨h, _⟩
    · exact ⟨hal.1, haddr⟩
    · exact ⟨haddr, hal.2⟩
    · exact hs.aligned mm' w h
  · intro mm' w w' a hw hw' ha ha'
    rcases mem_split hw with ⟨rfl, h⟩ | ⟨h, hne⟩ <;> rcases mem_split hw' with ⟨h0, h'⟩ | ⟨h', hne'⟩
    · rcases h with rfl | rfl <;> rcases h' with rfl | rfl
      · rfl
      · exact absurd ha.2 (UInt64.not_lt.mpr ha'.1)
      · exact absurd ha'.2 (UInt64.not_lt.mpr ha.1)
      · rfl
    · obtain rfl := hs.disjoint _ v w' a hv h' (hpiece w a h ha) ha'
      exact absurd rfl hne'
    · subst h0
      obtain rfl := hs.disjoint _ v w a hv h (hpiece w' a h' ha') ha
      exact absurd rfl hne
    · exact hs.disjoint mm' w w' a h h' ha ha'
  · intro mm' a f he
    obtain ⟨w, hw, hwa, hin, hf⟩ := hs.entry mm' a f he
    by_cases hwv : (mm', w) = (mm, v)
    · obtain ⟨rfl, rfl⟩ := Prod.mk.inj hwv
      by_cases hlo : a < addr
      · exact ⟨w.below addr, List.mem_cons_self, ⟨hwa.1, hlo⟩, hin, hf⟩
      · have hge := UInt64.not_lt.mp hlo
        rw [← byteOffset_above hal haddr h1 hge] at hin hf
        exact ⟨w.above addr, by simp, ⟨hge, hwa.2⟩, hin, hf⟩
    · exact ⟨w, List.mem_cons_of_mem _ (List.mem_cons_of_mem _ (mem_filter_ne.mpr ⟨hw, hwv⟩)), hwa, hin, hf⟩

/-- An entry that survives `munmap` belongs to another mapping. -/
theorem dropEntries_some {pte : Nat → UInt64 → Option Nat} (hal : v.Aligned) {mm' : Nat} {a : UInt64} {f : Nat}
    (h : dropEntries pte mm v mm' (a / pageSize) = some f) :
    pte mm' (a / pageSize) = some f ∧ ¬ (mm' = mm ∧ v.Has a) := by
  unfold dropEntries at h
  split at h
  · cases h
  · rename_i hn
    refine ⟨h, ?_⟩
    rintro ⟨rfl, hl, hu⟩
    apply hn
    have hs : pageSize.toNat = 4096 := rfl
    obtain ⟨hv1, hv2⟩ := hal
    rw [UInt64.le_iff_toNat_le] at hl
    rw [UInt64.lt_iff_toNat_lt] at hu
    refine ⟨rfl, UInt64.le_iff_toNat_le.mpr ?_, UInt64.lt_iff_toNat_lt.mpr ?_⟩
    · rw [UInt64.toNat_div, UInt64.toNat_div, hs]; omega
    · rw [UInt64.toNat_div, UInt64.toNat_div, hs]; omega

theorem munmap_inv (hs : Inv k s) (hv : (mm, v) ∈ s.vmas) :
    Inv k { s with vmas := s.vmas.filter (· ≠ (mm, v)), pte := dropEntries s.pte mm v } := by
  refine ⟨fun mm' w hw => hs.aligned mm' w (mem_filter_ne.mp hw).1,
    fun mm' w w' a hw hw' => hs.disjoint mm' w w' a (mem_filter_ne.mp hw).1 (mem_filter_ne.mp hw').1, ?_⟩
  intro mm' a f he
  obtain ⟨he, hother⟩ := dropEntries_some (hs.aligned mm v hv) he
  obtain ⟨w, hw, hwa, h⟩ := hs.entry mm' a f he
  refine ⟨w, mem_filter_ne.mpr ⟨hw, fun heq => hother ?_⟩, hwa, h⟩
  obtain ⟨rfl, rfl⟩ := Prod.mk.inj heq
  exact ⟨rfl, hwa⟩

theorem zap_inv {page : UInt64} (hs : Inv k s) :
    Inv k { s with pte := Function.update s.pte mm (Function.update (s.pte mm) page none) } := by
  refine ⟨hs.aligned, hs.disjoint, fun mm' a f he => hs.entry mm' a f ?_⟩
  by_cases hmm : mm' = mm
  · subst hmm
    by_cases hpage : a / pageSize = page
    · subst hpage; simp at he
    · simpa [Function.update_of_ne hpage] using he
  · simpa [Function.update_of_ne hmm] using he

end Mappings

/-- **Every step keeps the invariant.** -/
theorem step_inv {k : Backing} {s s' : State} {e : Event} (hs : Inv k s) (h : Step k s e s') : Inv k s' := by
  cases h with
  | read _ => exact hs
  | write _ => exact ⟨hs.aligned, hs.disjoint, hs.entry⟩
  | @mmap mm v hal hfree hok =>
    have hsame : (exampleCharMmap v).2.vmStart = v.vmStart ∧ (exampleCharMmap v).2.vmEnd = v.vmEnd := by
      unfold exampleCharMmap
      split <;> exact ⟨rfl, rfl⟩
    refine mmap_inv hs ?_ ?_
    · rw [VmArea.Aligned, hsame.1, hsame.2]; exact hal
    · intro w hw a ha
      rw [VmArea.Has, hsame.1, hsame.2] at ha
      exact hfree w hw a ha
  | mmapRejected _ => exact hs
  | split hv haddr h1 h2 => exact split_inv hs hv haddr h1 h2
  | munmap hv => exact munmap_inv hs hv
  | zap => exact zap_inv hs
  | load hv ha haddr ht => exact (translate_some hs hv ha haddr ht).2.2.2
  | store hv ha haddr ht =>
    have hs' := (translate_some hs hv ha haddr ht).2.2.2
    exact ⟨hs'.aligned, hs'.disjoint, hs'.entry⟩
  | sigbus _ _ _ _ => exact hs

/-! ## The array behind both paths -/

/-- The four pages as one array. -/
def array (k : Backing) (m : Frames) (p : Nat) : UInt8 := if p < 16384 then k.byte m p else 0

/-- A store through a frame of the buffer is a store to the array. -/
theorem array_poke (k : Backing) (m : Frames) {p : Nat} (hp : p < 16384) (b : UInt8) :
    array k (poke m (k.frame (p / 4096)) (p % 4096) b) = Function.update (array k m) p b := by
  funext q
  by_cases hq : q = p
  · subst hq
    simp [array, Backing.byte, poke, hp]
  · rw [Function.update_of_ne hq]
    unfold array
    split
    · rename_i hlt
      unfold Backing.byte poke
      by_cases hf : k.frame (q / 4096) = k.frame (p / 4096)
      · have hpage := k.frame_inj _ _ (by omega) (by omega) hf
        rw [hf, Function.update_self, Function.update_of_ne (by omega)]
      · rw [Function.update_of_ne hf]
    · rfl

theorem serves_fill (k : Backing) : ∀ (m : Frames) {p : Nat} {bs : List UInt8}, p + bs.length ≤ 16384 →
    Serves (array k m) (stores p bs) (array k (k.fill m p bs))
  | m, _, [], _ => .nil _
  | m, p, b :: bs, h => by
    rw [List.length_cons] at h
    have ih := @serves_fill k (poke m (k.frame (p / 4096)) (p % 4096) b) (p + 1) bs (by omega)
    rw [array_poke k m (by omega)] at ih
    exact .store p b ih

theorem serves_copiedOut (k : Backing) (m : Frames) {p n room : Nat} (h : p + n ≤ 16384) :
    Serves (array k m) (loads p (copiedOut (k.byte m) p n room)) (array k m) := by
  have heq : copiedOut (k.byte m) p n room = slice (array k m) p (min n room) := by
    apply slice_congr
    intro i hi
    rw [array, if_pos (by omega)]
  rw [heq]
  exact serves_loads _ _ _

/-- The bytes of the buffer that an event loads or stores. -/
def Event.accesses : Event → List (Access Nat UInt8)
  | .read ppos _ _ _ res => loads ppos.toNat res.bytes
  | .write ppos _ _ _ _ _ res => stores ppos.toNat res.bytes
  | .load _ v a b => [.load (byteOffset v a).toNat b]
  | .store _ v a b => [.store (byteOffset v a).toNat b]
  | _ => []

section Calls

variable (k : Backing) (m : Frames) {ppos count : UInt64} (src : Nat → UInt8) (intr : Bool) (room : Nat) (zero : Bool)

theorem exampleCharRead_serves (hc : count ≤ maxRwCount) :
    Serves (array k m) (loads ppos.toNat (exampleCharRead k m ppos count intr room).bytes) (array k m) := by
  unfold exampleCharRead
  split
  · exact .nil _
  · split
    · exact .nil _
    · rename_i hp
      have hp := UInt64.not_le.mp hp
      have hle := clamp_le count hp
      simp only [clamp_eq hp hc]
      split
      · exact serves_copiedOut k m hle
      · exact serves_copiedOut k m hle

theorem exampleCharWrite_serves (hc : count ≤ maxRwCount) :
    Serves (array k m) (stores ppos.toNat (exampleCharWrite k m ppos count src intr room zero).2.bytes)
      (array k (exampleCharWrite k m ppos count src intr room zero).1) := by
  unfold exampleCharWrite
  split
  · exact .nil _
  · split
    · exact .nil _
    · rename_i hp
      have hp := UInt64.not_le.mp hp
      have hle := clamp_le count hp
      simp only [clamp_eq hp hc]
      have hlen := length_copiedIn_le src (clamp ppos count) room zero
      split
      · exact serves_fill k m (by simp only; omega)
      · exact serves_fill k m (by simp only; omega)

end Calls

/-- **Every step serves its accesses** from the array. -/
theorem step_serves {k : Backing} {s s' : State} {e : Event} (hs : Inv k s) (h : Step k s e s') :
    Serves (array k s.frames) e.accesses (array k s'.frames) := by
  cases h with
  | read hc => exact exampleCharRead_serves k _ _ _ hc
  | write hc => exact exampleCharWrite_serves k _ _ _ _ _ hc
  | mmap _ _ _ => exact .nil _
  | mmapRejected _ => exact .nil _
  | split _ _ _ _ => exact .nil _
  | munmap _ => exact .nil _
  | zap => exact .nil _
  | @load s' mm v a address f hv ha haddr ht =>
    obtain ⟨hin, rfl, hframes, _⟩ := translate_some hs hv ha haddr ht
    have hin := toNat_lt_of_lt_bufferSize hin
    have hbyte : s'.frames (k.frame ((byteOffset v a).toNat / 4096)) (a.toNat % 4096) =
        array k s.frames (byteOffset v a).toNat := by
      rw [array, if_pos hin, Backing.byte, (hs.aligned mm v hv).offset_mod ha, hframes]
    rw [hbyte, hframes]
    exact .load _ (.nil _)
  | @store s' mm v a address f b hv ha haddr ht =>
    obtain ⟨hin, rfl, hframes, _⟩ := translate_some hs hv ha haddr ht
    have hin := toNat_lt_of_lt_bufferSize hin
    rw [← (hs.aligned mm v hv).offset_mod ha, array_poke k _ hin, hframes]
    exact .store _ b (.nil _)
  | sigbus _ _ _ _ => exact .nil _

/-! ## What each caller sees -/

/-- The result of each event: calls move the bytes from their position to the end of the buffer at most, unless they are
interrupted, fault or start past the end; mapped accesses stay inside the buffer, and only those fail that would not. -/
def Event.Exact : Event → Prop
  | .read ppos count intr room res =>
    if intr then res = ⟨-eRestartsys, ppos, []⟩
    else if room < clamp ppos count then res.ret = -eFault ∧ res.ppos = ppos ∧ res.bytes.length = room
    else res.ret = clamp ppos count ∧ res.ppos.toNat = ppos.toNat + clamp ppos count ∧
      res.bytes.length = clamp ppos count
  | .write ppos count src intr room zero res =>
    if intr then res = ⟨-eRestartsys, ppos, []⟩
    else if ppos ≥ bufferSize then res = ⟨-eNospc, ppos, []⟩
    else if room < clamp ppos count then
      res.ret = -eFault ∧ res.ppos = ppos ∧ res.bytes = copiedIn src (clamp ppos count) room zero
    else res.ret = clamp ppos count ∧ res.ppos.toNat = ppos.toNat + clamp ppos count ∧
      res.bytes = slice src 0 (clamp ppos count)
  | .load _ v a _ | .store _ v a _ => v.Has a ∧ byteOffset v a < bufferSize ∧
      (a.toNat - v.vmStart.toNat + v.vmPgoff.toNat * 4096 < 2 ^ 64 →
        (byteOffset v a).toNat = a.toNat - v.vmStart.toNat + v.vmPgoff.toNat * 4096)
  | .sigbus _ v a => v.Has a ∧ bufferSize ≤ byteOffset v a
  | _ => True

theorem byteOffset_exact {v : VmArea} {a : UInt64} (ha : v.Has a)
    (h : a.toNat - v.vmStart.toNat + v.vmPgoff.toNat * 4096 < 2 ^ 64) :
    (byteOffset v a).toNat = a.toNat - v.vmStart.toNat + v.vmPgoff.toNat * 4096 := by
  rw [byteOffset_toNat ha.1, Nat.mod_eq_of_lt h]

section Calls

variable (k : Backing) (m : Frames) {ppos count : UInt64} (src : Nat → UInt8) (intr : Bool) (room : Nat) (zero : Bool)

theorem exampleCharRead_exact (hc : count ≤ maxRwCount) :
    (Event.read ppos count intr room (exampleCharRead k m ppos count intr room)).Exact := by
  unfold Event.Exact exampleCharRead
  cases intr with
  | true => simp
  | false =>
    simp only [Bool.false_eq_true, ↓reduceIte]
    by_cases hp : ppos ≥ bufferSize
    · simp [if_pos hp, clamp_outside hp]
    · have hp' := UInt64.not_le.mp hp
      have heq := clamp_eq hp' hc
      simp only [if_neg hp, heq]
      split
      · refine ⟨rfl, rfl, ?_⟩
        rw [length_copiedOut]; omega
      · refine ⟨rfl, ppos_add_clamp hp' heq, ?_⟩
        rw [length_copiedOut]; omega

theorem exampleCharWrite_exact (hc : count ≤ maxRwCount) :
    (Event.write ppos count src intr room zero (exampleCharWrite k m ppos count src intr room zero).2).Exact := by
  unfold Event.Exact exampleCharWrite
  cases intr with
  | true => simp
  | false =>
    simp only [Bool.false_eq_true, ↓reduceIte]
    by_cases hp : ppos ≥ bufferSize
    · simp [if_pos hp]
    · have hp' := UInt64.not_le.mp hp
      have heq := clamp_eq hp' hc
      simp only [if_neg hp, heq]
      split
      · exact ⟨rfl, rfl, rfl⟩
      · rename_i hroom
        exact ⟨rfl, ppos_add_clamp hp' heq, copiedIn_ok (by omega)⟩

end Calls

theorem step_exact {k : Backing} {s s' : State} {e : Event} (hs : Inv k s) (h : Step k s e s') : e.Exact := by
  cases h with
  | read hc => exact exampleCharRead_exact k _ _ _ hc
  | write hc => exact exampleCharWrite_exact k _ _ _ _ _ hc
  | mmap _ _ _ => trivial
  | mmapRejected _ => trivial
  | split _ _ _ _ => trivial
  | munmap _ => trivial
  | zap => trivial
  | load hv ha haddr ht => exact ⟨ha, (translate_some hs hv ha haddr ht).1, byteOffset_exact ha⟩
  | store hv ha haddr ht => exact ⟨ha, (translate_some hs hv ha haddr ht).1, byteOffset_exact ha⟩
  | sigbus hv ha haddr ht => exact ⟨ha, translate_none hs hv ha haddr ht⟩

/-! ## Coherence -/

/-- **Runs** keep the invariant and serve all accesses from the initial array. -/
theorem run_serves {k : Backing} {tr : List Event} {s : State} (h : (system k).Run tr s) :
    Inv k s ∧ (∀ e ∈ tr, e.Exact) ∧
      Serves (fun p => if p < 16384 then initByte p else 0) (tr.flatMap Event.accesses) (array k s.frames) := by
  refine System.Run.history (P := fun tr s => Inv k s ∧ (∀ e ∈ tr, e.Exact) ∧
    Serves (fun p => if p < 16384 then initByte p else 0) (tr.flatMap Event.accesses) (array k s.frames)) ?_ ?_ h
  · rintro s ⟨hvmas, hpte, hbyte⟩
    refine ⟨⟨?_, ?_, ?_⟩, by simp, ?_⟩
    · simp [hvmas]
    · simp [hvmas]
    · simp [hpte]
    · have harr : array k s.frames = fun p => if p < 16384 then initByte p else 0 := by
        funext p
        unfold array
        split
        · rename_i hp; rw [hbyte p hp]
        · rfl
      rw [harr]
      exact .nil _
  · rintro tr s e s' _ ⟨hinv, hex, hserve⟩ hstep
    refine ⟨step_inv hinv hstep, ?_, ?_⟩
    · intro e' he'
      rcases List.mem_append.mp he' with h' | h'
      · exact hex e' h'
      · rw [List.mem_singleton.mp h']; exact step_exact hinv hstep
    · rw [List.flatMap_append]
      refine hserve.trans ?_
      simpa using step_serves hinv hstep

/-- A call touches at most the clamped range. -/
theorem Event.Exact.length_le {ppos count : UInt64} {intr : Bool} {room : Nat} {res : IoResult}
    (h : (Event.read ppos count intr room res).Exact) : res.bytes.length ≤ clamp ppos count := by
  simp only [Event.Exact] at h
  split at h
  · simp [h]
  · split at h <;> omega

/-- Loads of exact events are inside the buffer. -/
theorem Event.Exact.load_lt {e : Event} (h : e.Exact) {o : Nat} {b : UInt8} (ha : Access.load o b ∈ e.accesses) :
    o < 16384 := by
  cases e with
  | read ppos count intr room res =>
    have hlen := h.length_le
    obtain ⟨hlo, hhi⟩ := place_loads ha
    have hb : bufferSize.toNat = 16384 := rfl
    simp only [Access.place, clamp, hb] at hlen hlo hhi
    omega
  | write ppos count src intr room zero res => exact absurd ha (load_notMem_stores _ _)
  | load mm v a b' =>
    simp only [Event.accesses, List.mem_singleton, Access.load.injEq] at ha
    rw [ha.1]
    exact toNat_lt_of_lt_bufferSize h.2.1
  | store mm v a b' => simp [Event.accesses] at ha
  | _ => simp [Event.accesses] at ha

/-- **Coherence.** In every run: each load, mapped or by `read`, returns the byte last stored at its offset by either
path, or the initial one; the buffer holds the bytes last stored; and each call and mapped access has its exact
result. -/
theorem simple_vma_coherent (k : Backing) {tr : List Event} {s : State} (h : (system k).Run tr s) :
    (∀ pre o b post, tr.flatMap Event.accesses = pre ++ .load o b :: post →
      o < 16384 ∧ b = (lastStored pre o).getD (initByte o)) ∧
    (∀ o < 16384, k.byte s.frames o = (lastStored (tr.flatMap Event.accesses) o).getD (initByte o)) ∧
    ∀ e ∈ tr, e.Exact := by
  obtain ⟨_, hex, hserve⟩ := run_serves h
  refine ⟨?_, ?_, hex⟩
  · intro pre o b post heq
    have ho : o < 16384 := by
      have hmem : Access.load o b ∈ tr.flatMap Event.accesses := by rw [heq]; simp
      obtain ⟨e, he, ha⟩ := List.mem_flatMap.mp hmem
      exact (hex e he).load_lt ha
    rw [heq] at hserve
    exact ⟨ho, by simpa [ho] using hserve.load_eq⟩
  · intro o ho
    have hfinal := hserve.final_eq o
    rwa [array, if_pos ho, if_pos ho] at hfinal

/-- A buffer in frames 0 to 3, mapped at address 0. -/
def lowFrames : Backing where
  buffer := 0
  vmallocToPage a := some (a.toNat / 4096)
  frame i := i
  frame_inj := fun _ _ _ _ h => h
  toPage := fun o _ => by simp

def loaded : State := ⟨fun f o => initByte (f * 4096 + o), [], fun _ _ => none⟩

/-- Pages 1 and 2 of the buffer, mapped at `0x10000`. -/
def middlePages : VmArea := ⟨0x10000, 0x12000, 1, 0⟩

/-- The mapping is made and byte 9 stored through it. -/
def mapThenStore : List Event :=
  [.mmap 0 (exampleCharMmap middlePages).2 0, .store 0 (exampleCharMmap middlePages).2 0x10005 9]

theorem simple_vma_coherent_mapThenStore : ∃ s, (system lowFrames).Run mapThenStore s ∧
    lowFrames.byte s.frames 4101 = (lastStored (mapThenStore.flatMap Event.accesses) 4101).getD (initByte 4101) := by
  have hinit : (system lowFrames).init loaded := by
    refine ⟨rfl, fun _ _ => rfl, fun p _ => ?_⟩
    simp only [Backing.byte, loaded, lowFrames]
    rw [Nat.div_add_mod']
  have hmmap : (system lowFrames).step loaded (.mmap 0 (exampleCharMmap middlePages).2 0) _ :=
    Step.mmap ⟨rfl, rfl⟩ (fun w hw => by cases hw) rfl
  have hstore : (system lowFrames).step { loaded with vmas := [(0, (exampleCharMmap middlePages).2)] }
      (.store 0 (exampleCharMmap middlePages).2 0x10005 9) _ :=
    Step.store List.mem_cons_self ⟨by decide, by decide⟩
      (show (0x10000 : UInt64) / pageSize = 0x10005 / pageSize by decide)
      rfl
  have hrun : (system lowFrames).Run mapThenStore _ := ⟨loaded, hinit, .cons hmmap (.cons hstore (.nil _))⟩
  exact ⟨_, hrun, (simple_vma_coherent lowFrames hrun).2.1 4101 (by decide)⟩

end KernelModules.Vma
