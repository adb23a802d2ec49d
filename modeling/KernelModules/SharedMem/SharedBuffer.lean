import KernelModules.SharedMem.SharedMemoryDemo
import KernelModules.Vma.Backed

/-!
# The shared buffer

The two message areas are halves of one buffer of 8 KB, which lies in memory that goes on behind it.

- `shared_mem_mmap` maps the frames of the buffer from its first one on and ignores the offset of the request
  (`place_eq`), so a mapping shows the bytes its offset names only at offset 0 (`shared_mem_mmap_offsets`);
- `process_message` on the memory (`Flat.processMessage`), with each of its accesses: it does what it does on the areas
  (`device_processMessage`), scans the request up to a NUL that it has made sure of (`cstr_request`), and stays inside
  the buffer (`process_message_buffer`).
-/

namespace KernelModules.SharedMem

open Lib Vma

/-- `BUFFER_SIZE`. -/
def bufferSize : UInt64 := 8 * 1024

/-! ## Mappings -/

/-- The buffer of `kzalloc` by its physical address: whole pages, one behind another. -/
structure SharedBuffer where
  phys : UInt64
  aligned : phys.toNat % 4096 = 0
  contiguous : phys.toNat + 8192 ≤ 2 ^ 64

/-- `remap_pfn_range(vma, addr, pfn, size, prot)`: the frames behind the addresses from `addr` on. -/
def remapPfnRange (addr pfn size : UInt64) (a : UInt64) : Option Nat :=
  if addr ≤ a ∧ a.toNat < addr.toNat + size.toNat then some (pfn.toNat + (a.toNat - addr.toNat) / 4096) else none

/-- `shared_mem_mmap`: an error or the page table of the mapping; `remap` is what `remap_pfn_range` returns. -/
def sharedMemMmap (b : SharedBuffer) (v : VmArea) (remap : Int) : Except Int (UInt64 → Option Nat) :=
  let size := v.vmEnd - v.vmStart
  if size > bufferSize then
    .error (-eInval)
  else
    let pfn := b.phys >>> pageShift
    if remap ≠ 0 then .error (-eAgain) else .ok (remapPfnRange v.vmStart pfn size)

/-- The physical place behind an address. -/
def place (pt : UInt64 → Option Nat) (a : UInt64) : Option Nat := (pt a).map fun f => f * 4096 + a.toNat % 4096

/-- The mapping shows at each address the byte of the buffer that the offset of the request makes it name. -/
def SharedBuffer.Respects (b : SharedBuffer) (v : VmArea) (pt : UInt64 → Option Nat) : Prop :=
  ∀ a, v.Has a → v.offset a < 8192 ∧ place pt a = some (b.phys.toNat + v.offset a)

section Mmap

variable {b : SharedBuffer} {v v' : VmArea} {pt pt' : UInt64 → Option Nat} {remap remap' : Int}

/-- What an accepted request is, and gets. -/
theorem sharedMemMmap_ok (h : sharedMemMmap b v remap = .ok pt) (hne : v.vmStart < v.vmEnd) :
    v.size ≤ 8192 ∧ pt = remapPfnRange v.vmStart (b.phys >>> pageShift) (v.vmEnd - v.vmStart) := by
  have hb : bufferSize.toNat = 8192 := rfl
  simp only [sharedMemMmap] at h
  split at h
  · cases h
  · rename_i hsize
    split at h
    · cases h
    · rw [gt_iff_lt, UInt64.lt_iff_toNat_lt, toNat_size hne, hb] at hsize
      exact ⟨Nat.le_of_not_lt hsize, (Except.ok.inj h).symm⟩

/-- **An address** shows the byte that lies as far behind the start of the buffer as it behind the start of the
mapping. -/
theorem place_eq (h : sharedMemMmap b v remap = .ok pt) (hv : v.Aligned) (hne : v.vmStart < v.vmEnd) {a : UInt64}
    (ha : v.Has a) : place pt a = some (b.phys.toNat + (a.toNat - v.vmStart.toNat)) := by
  have hphys := b.aligned
  have hstart := hv.1
  have h1 := UInt64.le_iff_toNat_le.mp ha.1
  have h2 := UInt64.lt_iff_toNat_lt.mp ha.2
  have hin : v.vmStart ≤ a ∧ a.toNat < v.vmStart.toNat + (v.vmEnd - v.vmStart).toNat := by
    rw [toNat_size hne, VmArea.size]
    exact ⟨ha.1, by omega⟩
  rw [(sharedMemMmap_ok h hne).2, place, remapPfnRange, if_pos hin, toNat_shiftRight_pageShift, Option.map_some]
  congr 1
  omega

/-- An accepted request is respected only at offset 0. -/
theorem respects_iff (h : sharedMemMmap b v remap = .ok pt) (hv : v.Aligned) (hne : v.vmStart < v.vmEnd) :
    b.Respects v pt ↔ v.vmPgoff = 0 := by
  constructor
  · intro hall
    -- the first address shows the first byte
    have hfirst : v.Has v.vmStart := ⟨UInt64.le_refl _, hne⟩
    have hplace := (hall _ hfirst).2
    rw [place_eq h hv hne hfirst, Option.some.injEq, VmArea.offset] at hplace
    exact UInt64.toNat_inj.mp (by rw [UInt64.toNat_zero]; omega)
  · intro hzero a ha
    have hlt := ha.offset_lt
    have hsize := (sharedMemMmap_ok h hne).1
    have hoff : v.offset a = a.toNat - v.vmStart.toNat := by
      rw [VmArea.offset, hzero, UInt64.toNat_zero]
      omega
    rw [hzero, UInt64.toNat_zero] at hlt
    rw [place_eq h hv hne ha, hoff]
    exact ⟨by omega, rfl⟩

/-- **Two accepted mappings** show the bytes their offsets name, and agree about where these are, if and only if both
are made at offset 0. -/
theorem shared_mem_mmap_offsets (b : SharedBuffer) (v v' : VmArea) (remap remap' : Int) (pt pt' : UInt64 → Option Nat)
    (h : sharedMemMmap b v remap = .ok pt) (h' : sharedMemMmap b v' remap' = .ok pt') (hv : v.Aligned)
    (hv' : v'.Aligned) (hne : v.vmStart < v.vmEnd) (hne' : v'.vmStart < v'.vmEnd) :
    (b.Respects v pt ∧ b.Respects v' pt' ∧
      ∀ a a', v.Has a → v'.Has a' → v.offset a = v'.offset a' → place pt a = place pt' a') ↔
      v.vmPgoff = 0 ∧ v'.vmPgoff = 0 := by
  rw [respects_iff h hv hne, respects_iff h' hv' hne']
  refine ⟨fun hall => ⟨hall.1, hall.2.1⟩, fun ⟨hz, hz'⟩ => ⟨hz, hz', fun a a' ha ha' hoff => ?_⟩⟩
  rw [((respects_iff h hv hne).mpr hz a ha).2, ((respects_iff h' hv' hne').mpr hz' a' ha').2, hoff]

end Mmap

/-- A buffer at 1 MB. -/
def megabyte : SharedBuffer := ⟨0x100000, by decide, by decide⟩

/-- Two mappings of the whole buffer. -/
theorem shared_mem_mmap_offsets_zero :
    megabyte.Respects ⟨0x10000, 0x12000, 0, 0⟩ (remapPfnRange 0x10000 0x100 0x2000) :=
  ((shared_mem_mmap_offsets megabyte ⟨0x10000, 0x12000, 0, 0⟩ ⟨0x20000, 0x22000, 0, 0⟩ 0 0 _ _ rfl rfl ⟨rfl, rfl⟩
    ⟨rfl, rfl⟩ (by decide) (by decide)).mpr ⟨rfl, rfl⟩).1

/-- A mapping of one page at offset 1, where the responses are, shows the requests. -/
theorem shared_mem_mmap_offsets_second :
    sharedMemMmap megabyte ⟨0x10000, 0x11000, 1, 0⟩ 0 = .ok (remapPfnRange 0x10000 0x100 0x1000) ∧
    VmArea.offset ⟨0x10000, 0x11000, 1, 0⟩ 0x10000 = 4096 ∧
    place (remapPfnRange 0x10000 0x100 0x1000) 0x10000 = some megabyte.phys.toNat :=
  ⟨rfl, rfl, rfl⟩

/-! ## Messages -/

namespace Flat

/-- The bytes that a search for a NUL in the first `n` bytes loads. -/
def scanned (m : Nat → UInt8) (n : Nat) : List UInt8 := slice m 0 (min ((cstr (slice m 0 n)).length + 1) n)

/-- The memory from the buffer on, the counter, and the accesses made. -/
structure Outcome where
  memory : Nat → UInt8
  msgCount : UInt64
  accesses : List (Access Nat UInt8)

/-- `process_message`, with the buffer at place 0; `lim` is how far a `%s` is read. -/
def processMessage (lim : Nat) (m : Nat → UInt8) (msgCount : UInt64) : Outcome :=
  let len := (cstr (slice m 0 (msgSize - 1))).length
  let input := Function.update m len 0
  let msgCount := msgCount + 1
  let output := (echo msgCount (cstr (slice input 0 lim))).take (msgSize - 1) ++ [0]
  { memory := deposit input msgSize output
    msgCount := msgCount
    -- `strnlen`, the terminator, the log, and the response
    accesses := loads 0 (scanned m (msgSize - 1)) ++ .store len 0 ::
      (loads 0 (scanned input lim) ++ (loads 0 (scanned input lim) ++ stores msgSize output)) }

end Flat

/-- The two areas of the buffer. -/
def device (m : Nat → UInt8) (msgCount : UInt64) : SharedMemDevice where
  userToKernel := ⟨slice m 0 msgSize, length_slice m 0 msgSize⟩
  kernelToUser := ⟨slice m msgSize msgSize, length_slice m msgSize msgSize⟩
  msgCount := msgCount

section Messages

variable {lim : Nat} {m : Nat → UInt8}

/-- Where `strnlen` stops. -/
def requestLength (m : Nat → UInt8) : Nat := (cstr (slice m 0 (msgSize - 1))).length

theorem requestLength_lt (m : Nat → UInt8) : requestLength m < msgSize := by
  have hle := length_cstr_le (slice m 0 (msgSize - 1))
  rw [length_slice] at hle
  exact Nat.lt_of_le_of_lt hle (by decide)

theorem requestLength_eq (m : Nat → UInt8) : strnlen (slice m 0 msgSize) (msgSize - 1) = requestLength m := by
  rw [strnlen, take_slice m 0 (by decide), requestLength]

/-- **The request**, once terminated, is the string of the first 4095 bytes, however far it is read. -/
theorem cstr_request (hlim : msgSize ≤ lim) (m : Nat → UInt8) :
    cstr (slice (Function.update m (requestLength m) 0) 0 lim) = cstr (slice m 0 (msgSize - 1)) := by
  have hlt := requestLength_lt m
  have hle : requestLength m ≤ msgSize - 1 := Nat.le_of_lt_succ hlt
  -- up to the terminator the bytes are those of the request
  have hhead : slice (Function.update m (requestLength m) 0) 0 (requestLength m) = cstr (slice m 0 (msgSize - 1)) := by
    have hsame : slice (Function.update m (requestLength m) 0) 0 (requestLength m) = slice m 0 (requestLength m) :=
      slice_congr fun i hi => Function.update_of_ne (by omega) _ _
    rw [hsame, ← take_slice m 0 hle, requestLength, take_of_le_cstr (Nat.le_refl _), List.take_length]
  obtain ⟨k, hk⟩ : ∃ k, lim = requestLength m + (k + 1) := ⟨lim - requestLength m - 1, by omega⟩
  rw [hk, slice_append, hhead, slice, Nat.zero_add, Function.update_self]
  exact cstr_terminated _ (zero_notMem_cstr _)

/-- The text that is left as the response. -/
def response (m : Nat → UInt8) (msgCount : UInt64) : List UInt8 :=
  (echo (msgCount + 1) (cstr (slice m 0 (msgSize - 1)))).take (msgSize - 1)

theorem length_response_lt (m : Nat → UInt8) (msgCount : UInt64) : (response m msgCount).length < msgSize := by
  exact Nat.lt_of_le_of_lt (List.length_take_le _ _) (by decide)

theorem zero_notMem_response (m : Nat → UInt8) (msgCount : UInt64) : 0 ∉ response m msgCount := fun h =>
  zero_notMem_echo (zero_notMem_cstr _) (List.mem_of_mem_take h)

theorem processMessage_memory (hlim : msgSize ≤ lim) (m : Nat → UInt8) (msgCount : UInt64) :
    (Flat.processMessage lim m msgCount).memory =
      deposit (Function.update m (requestLength m) 0) msgSize (response m msgCount ++ [0]) := by
  rw [response, ← cstr_request hlim, requestLength, Flat.processMessage]

theorem length_output_le (m : Nat → UInt8) (msgCount : UInt64) : (response m msgCount ++ [0]).length ≤ msgSize := by
  rw [List.length_append]
  exact length_response_lt m msgCount

theorem cstr_response (hlim : msgSize ≤ lim) (m : Nat → UInt8) (msgCount : UInt64) :
    cstr (slice (Flat.processMessage lim m msgCount).memory msgSize msgSize) = response m msgCount := by
  rw [processMessage_memory hlim, slice_deposit_overlay _ _ (length_output_le m msgCount), overlay, List.append_assoc,
    List.singleton_append]
  exact cstr_terminated _ (zero_notMem_response m msgCount)

/-- **The areas** are changed as `process_message` changes them. -/
theorem device_processMessage (hlim : msgSize ≤ lim) (m : Nat → UInt8) (msgCount : UInt64) :
    device (Flat.processMessage lim m msgCount).memory (msgCount + 1) = processMessage (device m msgCount) := by
  have hlt := requestLength_lt m
  have hset : slice (Function.update m (requestLength m) 0) 0 msgSize =
      (slice m 0 msgSize).set (requestLength m) 0 := by
    rw [← slice_update m 0 hlt, Nat.zero_add]
  have hrequest : slice (Flat.processMessage lim m msgCount).memory 0 msgSize =
      (slice m 0 msgSize).set (requestLength m) 0 := by
    rw [processMessage_memory hlim, ← hset]
    exact slice_congr fun i hi => deposit_of_notMem _ (.inl (by omega))
  have hresponse : slice (Flat.processMessage lim m msgCount).memory msgSize msgSize =
      snprintf (slice m msgSize msgSize) msgSize (echo (msgCount + 1) (cstr (slice m 0 (msgSize - 1)))) := by
    have hsame : slice (Function.update m (requestLength m) 0) msgSize msgSize = slice m msgSize msgSize :=
      slice_congr fun i _ => Function.update_of_ne (by omega) _ _
    rw [processMessage_memory hlim, slice_deposit_overlay _ _ (length_output_le m msgCount), hsame, snprintf, response]
  have hcstr : cstr ((slice m 0 msgSize).set (requestLength m) 0) = cstr (slice m 0 (msgSize - 1)) := by
    rw [← hset, cstr_request (Nat.le_refl _)]
  simp only [device, processMessage, Area.terminate, Area.print, requestLength_eq, hcstr, hrequest, hresponse]

/-- Every access lies inside the buffer, the loads in its first half. -/
theorem processMessage_accesses (hlim : msgSize ≤ lim) (m : Nat → UInt8) (msgCount : UInt64) :
    ∀ a ∈ (Flat.processMessage lim m msgCount).accesses, a.place < 8192 ∧ ∀ o b, a = .load o b → o < 4096 := by
  have hlt := requestLength_lt m
  have hsize : msgSize = 4096 := rfl
  have hload {n : Nat} {f : Nat → UInt8} (h : (cstr (slice f 0 n)).length ≤ requestLength m) :
      ∀ a ∈ loads 0 (Flat.scanned f n), a.place < 4096 := by
    intro a ha
    have hplace := (place_loads ha).2
    rw [Flat.scanned, length_slice] at hplace
    omega
  have hcase {a : Access Nat UInt8} (h : a.place < 4096) : a.place < 8192 ∧ ∀ o b, a = .load o b → o < 4096 :=
    ⟨by omega, fun o b ho => by rw [ho] at h; exact h⟩
  have hinput : (cstr (slice (Function.update m (requestLength m) 0) 0 lim)).length ≤ requestLength m := by
    rw [cstr_request hlim, requestLength]
  intro a ha
  simp only [Flat.processMessage, List.mem_append, List.mem_cons] at ha
  rcases ha with ha | rfl | ha | ha | ha
  · exact hcase (hload (Nat.le_refl _) a ha)
  · exact hcase hlt
  · exact hcase (hload hinput a ha)
  · exact hcase (hload hinput a ha)
  · have hplace := (place_stores ha).2
    have hle := length_output_le m msgCount
    rw [response, ← cstr_request hlim] at hle
    refine ⟨Nat.lt_of_lt_of_le hplace (by rw [hsize] at hle ⊢; exact Nat.add_le_add_left hle 4096), fun o b ho => ?_⟩
    rw [ho] at ha
    exact absurd ha (load_notMem_stores _ _)

/-- The accesses lead from the memory to the memory. -/
theorem serves_processMessage (lim : Nat) (m : Nat → UInt8) (msgCount : UInt64) :
    Serves m (Flat.processMessage lim m msgCount).accesses (Flat.processMessage lim m msgCount).memory := by
  simp only [Flat.processMessage, Flat.scanned]
  refine (serves_loads m 0 _).trans (.store _ _ ?_)
  exact (serves_loads _ 0 _).trans ((serves_loads _ 0 _).trans (serves_deposit _ _ _))

/-- The terminator of the request changes a byte only behind 4095 others than NUL. -/
theorem terminator_changes {i : Nat} (h : Function.update m (requestLength m) 0 i ≠ m i) :
    i = 4095 ∧ Function.update m (requestLength m) 0 i = 0 ∧ 0 ∉ slice m 0 4095 := by
  have hi : i = requestLength m := by
    by_contra hother
    exact h (Function.update_of_ne hother _ _)
  subst hi
  rw [Function.update_self] at h ⊢
  -- a request that ends before byte 4095 ends with a NUL already
  have hnone : 0 ∉ slice m 0 4095 := by
    intro hz
    have hlt : requestLength m + 1 ≤ 4095 := by
      have := length_cstr_lt hz
      rwa [length_slice] at this
    have htake : (slice m 0 4095).take (requestLength m + 1) = cstr (slice m 0 4095) ++ [0] := take_cstr hz
    rw [take_slice m 0 hlt, slice_append] at htake
    have hlast := List.append_inj_right' htake rfl
    rw [slice, Nat.zero_add, List.cons.injEq] at hlast
    exact h hlast.1.symm
  refine ⟨?_, rfl, hnone⟩
  have hlen : requestLength m = (slice m 0 4095).length := congrArg List.length (cstr_of_notMem hnone)
  rw [hlen, length_slice]

/-- **`process_message` on any contents**: the counter, the one byte of the request that may change, the response and
its terminator, everything behind that, and the accesses. -/
theorem process_message_buffer (lim : Nat) (hlim : 4096 ≤ lim) (m : Nat → UInt8) (msgCount : UInt64) :
    (Flat.processMessage lim m msgCount).msgCount.toNat = (msgCount.toNat + 1) % 2 ^ 64 ∧
    (∀ i < 4096, (Flat.processMessage lim m msgCount).memory i ≠ m i →
      i = 4095 ∧ (Flat.processMessage lim m msgCount).memory i = 0 ∧ 0 ∉ slice m 0 4095) ∧
    cstr (slice (Flat.processMessage lim m msgCount).memory 4096 4096) =
      (echo (msgCount + 1) (cstr (slice m 0 4095))).take 4095 ∧
    (∀ i, 4096 + min (echo (msgCount + 1) (cstr (slice m 0 4095))).length 4095 < i →
      (Flat.processMessage lim m msgCount).memory i = m i) ∧
    ((cstr (slice m 0 4095)).length ≤ 4067 → cstr (slice (Flat.processMessage lim m msgCount).memory 4096 4096) =
      echo (msgCount + 1) (cstr (slice m 0 4095))) ∧
    Serves m (Flat.processMessage lim m msgCount).accesses (Flat.processMessage lim m msgCount).memory ∧
    ∀ a ∈ (Flat.processMessage lim m msgCount).accesses, a.place < 8192 ∧ ∀ o b, a = .load o b → o < 4096 := by
  have hlt : requestLength m < 4096 := requestLength_lt m
  have hmemory : (Flat.processMessage lim m msgCount).memory =
      deposit (Function.update m (requestLength m) 0) 4096 (response m msgCount ++ [0]) :=
    processMessage_memory hlim m msgCount
  have htext : response m msgCount = (echo (msgCount + 1) (cstr (slice m 0 4095))).take 4095 := rfl
  have hresponse : cstr (slice (Flat.processMessage lim m msgCount).memory 4096 4096) = response m msgCount :=
    cstr_response hlim m msgCount
  refine ⟨UInt64.toNat_add msgCount 1, fun i hi hne => ?_, hresponse, fun i hi => ?_, fun hshort => ?_,
    serves_processMessage lim m msgCount, processMessage_accesses hlim m msgCount⟩
  · rw [hmemory, deposit_of_notMem _ (.inl hi)] at hne ⊢
    exact terminator_changes hne
  · have hlen : (response m msgCount ++ [0]).length =
        min (echo (msgCount + 1) (cstr (slice m 0 4095))).length 4095 + 1 := by
      rw [htext, List.length_append, List.length_take, List.length_singleton, Nat.min_comm]
    rw [hmemory, deposit_of_notMem _ (.inr (by rw [hlen]; exact hi)), Function.update_of_ne (by omega)]
  · have hle := length_echo_le (msgCount + 1) (cstr (slice m 0 4095))
    rw [hresponse, htext, List.take_of_length_le (by omega)]

end Messages

/-- A request `hi`, and one without a NUL. -/
theorem process_message_buffer_texts :
    cstr (slice (Flat.processMessage 4096 (fun i => (ascii "hi").getD i 0) 0).memory 4096 4096) = ascii "Echo #1: hi" ∧
    cstr (slice (Flat.processMessage 4096 (fun _ => 65) 6).memory 4096 4096) =
      ascii "Echo #7: " ++ List.replicate 4086 65 := by
  have hhi : cstr (slice (fun i => (ascii "hi").getD i 0) 0 4095) = ascii "hi" := by decide
  have hall : cstr (slice (fun _ => 65) 0 4095) = List.replicate 4095 65 := by
    have hslice : slice (fun _ => (65 : UInt8)) 0 4095 = List.replicate 4095 65 := by
      rw [slice_eq_map, List.map_const', List.length_range]
    have hfree : (0 : UInt8) ∉ List.replicate 4095 65 := fun h => absurd (List.eq_of_mem_replicate h) (by decide)
    rw [hslice, cstr_of_notMem hfree]
  have hecho : echo (6 + 1) (List.replicate 4095 65) = ascii "Echo #7: " ++ List.replicate 4095 65 := rfl
  have hshort := (process_message_buffer 4096 (Nat.le_refl _) (fun i => (ascii "hi").getD i 0) 0).2.2.2.2.1
  have hlong := (process_message_buffer 4096 (Nat.le_refl _) (fun _ => 65) 6).2.2.1
  rw [hhi] at hshort
  rw [hall, hecho, List.take_append, List.take_replicate] at hlong
  exact ⟨hshort (by decide), hlong⟩

end KernelModules.SharedMem
