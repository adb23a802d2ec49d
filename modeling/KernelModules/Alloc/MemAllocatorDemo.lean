import KernelModules.Lib.Heap
import KernelModules.Lib.CString

/-!
# The memory allocator demo

Each test allocates into a local array of pointers, any of the allocations failing, and frees what it got. A slot of the
array that was not assigned cannot be read, and an object that is not live cannot be used or freed: both are faults. The
three allocators have a heap each.

- `allocSlots_spec`, `freeSlots_spec`, `freeHoles_spec`, `allocUntil_spec`: the loops, over the values in the array;
- `mem_allocator_balanced`: no test faults, each frees exactly what it has allocated, once, and the failures are
  counted;
- `memDemoWrites_settles`: so any commands written to the file leave the objects that were live before.
-/

namespace KernelModules.Alloc

open Lib

/-! ## The code -/

/-- A local array of pointers, the heap of the allocator, and `failures`. A slot is unassigned, `NULL`, or an object. -/
structure Locals where
  ptrs : List (Option (Option Nat))
  heap : Heap
  failures : Int32

/-- The locals of a test with an array of `n` slots. -/
def Locals.enter (n : Nat) (heap : Heap) : Locals := ⟨List.replicate n none, heap, 0⟩

/-- `ptrs[i]`; a fault if it was not assigned. -/
def Locals.read (s : Locals) (i : Nat) : Option (Option Nat) := s.ptrs[i]?.join

/-- Allocation `i` into slot `i`, the failures counted. The slab test also fills in the object. -/
def allocSlot (fill : Bool) (ok : Nat → Bool) (s : Locals) (i : Nat) : Option Locals :=
  let (p, heap) := s.heap.alloc (ok i)
  (if fill then heap.accessAll p.toList else some ()).map fun _ =>
    { ptrs := s.ptrs.set i (some p)
      heap := heap
      failures := if p.isNone then s.failures + 1 else s.failures }

/-- Slot `i` is freed unless it is `NULL`. -/
def freeSlot (s : Locals) (i : Nat) : Option Locals :=
  (s.read i).bind fun
    | none => some s
    | some a => (s.heap.free a).map fun heap => { s with heap := heap }

/-- Slot `i` is freed and set to `NULL`. -/
def freeHole (s : Locals) (i : Nat) : Option Locals :=
  (s.read i).bind fun
    | none => some s
    | some a => (s.heap.free a).map fun heap => { s with heap := heap, ptrs := s.ptrs.set i (some none) }

def testIterations : Nat := 1000

/-- `struct alloc_test_result`. -/
structure AllocTestResult where
  kmallocTimeNs : UInt64
  vmallocTimeNs : UInt64
  slabTimeNs : UInt64
  kmallocFailures : Int32
  vmallocFailures : Int32
  slabFailures : Int32
  testSize : UInt64

/-- The two loops of a performance test: the failures and the heap. -/
def performanceTest (fill : Bool) (ok : Nat → Bool) (heap : Heap) : Option (Int32 × Heap) := do
  let s ← (List.range testIterations).foldlM (allocSlot fill ok) (.enter testIterations heap)
  let s ← (List.range testIterations).foldlM freeSlot s
  some (s.failures, s.heap)

/-- The outcomes of the allocations of a test, and the clock at its start and its end. -/
structure Trial where
  ok : Nat → Bool
  startTime : UInt64
  endTime : UInt64

def testKmallocPerformance (result : AllocTestResult) (t : Trial) (heap : Heap) : Option (AllocTestResult × Heap) :=
  (performanceTest false t.ok heap).map fun (failures, heap) =>
    ({ result with kmallocTimeNs := t.endTime - t.startTime, kmallocFailures := failures }, heap)

def testVmallocPerformance (result : AllocTestResult) (t : Trial) (heap : Heap) : Option (AllocTestResult × Heap) :=
  (performanceTest false t.ok heap).map fun (failures, heap) =>
    ({ result with vmallocTimeNs := t.endTime - t.startTime, vmallocFailures := failures }, heap)

def testSlabPerformance (result : AllocTestResult) (t : Trial) (heap : Heap) : Option (AllocTestResult × Heap) :=
  (performanceTest true t.ok heap).map fun (failures, heap) =>
    ({ result with slabTimeNs := t.endTime - t.startTime, slabFailures := failures }, heap)

/-- `test_memory_fragmentation`: 10 large and 100 small allocations, 110 in all. -/
def testMemoryFragmentation (ok : Nat → Bool) (heap : Heap) : Option Heap := do
  let large ← (List.range 10).foldlM (allocSlot false ok) (.enter 10 heap)
  let large ← ((List.range 5).map (2 * ·)).foldlM freeHole large
  let small ← (List.range 100).foldlM (allocSlot false fun i => ok (10 + i)) (.enter 100 large.heap)
  let large ← (List.range 10).foldlM freeSlot { large with heap := small.heap }
  let small ← (List.range 100).foldlM freeSlot { small with heap := large.heap }
  some small.heap

/-- The first loop of `test_allocation_failures`, at `i` with `n` rounds left: `allocated` and the locals. -/
def allocUntil (ok : Nat → Bool) : (n i allocated : Nat) → Locals → Nat × Locals
  | 0, _, allocated, s => (allocated, s)
  | n + 1, i, allocated, s =>
    match s.heap.alloc (ok i) with
    | (some a, heap) =>
      allocUntil ok n (i + 1) (allocated + 1) { s with ptrs := s.ptrs.set i (some (some a)), heap := heap }
    | (none, heap) => (allocated, { s with ptrs := s.ptrs.set i (some none), heap := heap })

/-- `test_allocation_failures`: the number it prints, and the heap. `kfree(NULL)` does nothing. -/
def testAllocationFailures (ok : Nat → Bool) (heap : Heap) : Option (Nat × Heap) := do
  let (allocated, s) := allocUntil ok 1000 0 0 (.enter 1000 heap)
  let s ← (List.range allocated).foldlM freeSlot s
  some (allocated, s.heap)

/-- The heaps of the three allocators and the results of the tests. -/
structure MemAllocatorDemo where
  kmallocHeap : Heap
  vmallocHeap : Heap
  demoCache : Heap
  smallTestResults : AllocTestResult
  mediumTestResults : AllocTestResult
  largeTestResults : AllocTestResult

def runPerformanceTests (s : MemAllocatorDemo) (t : Fin 7 → Trial) : Option MemAllocatorDemo := do
  let small := { s.smallTestResults with testSize := 256 }
  let (small, kmallocHeap) ← testKmallocPerformance small (t 0) s.kmallocHeap
  let (small, vmallocHeap) ← testVmallocPerformance small (t 1) s.vmallocHeap
  let (small, demoCache) ← testSlabPerformance small (t 2) s.demoCache
  let medium := { s.mediumTestResults with testSize := 4 * 1024 }
  let (medium, kmallocHeap) ← testKmallocPerformance medium (t 3) kmallocHeap
  let (medium, vmallocHeap) ← testVmallocPerformance medium (t 4) vmallocHeap
  let medium := { medium with slabTimeNs := 0, slabFailures := 0 }
  let large := { s.largeTestResults with testSize := 128 * 1024 }
  let (large, kmallocHeap) ← testKmallocPerformance large (t 5) kmallocHeap
  let (large, vmallocHeap) ← testVmallocPerformance large (t 6) vmallocHeap
  let large := { large with slabTimeNs := 0, slabFailures := 0 }
  some ⟨kmallocHeap, vmallocHeap, demoCache, small, medium, large⟩

/-- `strncmp(cmd, word, 4) == 0` for a word of four characters. -/
def startsWith (cmd : List UInt8) (word : String) : Bool := (cstr cmd).take 4 = ascii word

/-- `mem_demo_write`, with the outcomes of the allocations it makes. -/
def memDemoWrite (s : MemAllocatorDemo) (w : UserText) (t : Fin 7 → Trial) : Option (MemAllocatorDemo × Int) :=
  if w.count ≥ 16 then some (s, -eInval)
  else if w.room < w.count then some (s, -eFault)
  else
    let cmd := slice w.buf 0 w.count ++ [0]
    if startsWith cmd "test" then (runPerformanceTests s t).map fun s => (s, w.count)
    else if startsWith cmd "frag" then
      (testMemoryFragmentation (t 0).ok s.kmallocHeap).map fun heap => ({ s with kmallocHeap := heap }, w.count)
    else if startsWith cmd "fail" then
      (testAllocationFailures (t 0).ok s.kmallocHeap).map fun r => ({ s with kmallocHeap := r.2 }, w.count)
    else some (s, w.count)

/-- Commands one after the other. -/
def memDemoWrites (s : MemAllocatorDemo) (ws : List (UserText × (Fin 7 → Trial))) : Option MemAllocatorDemo :=
  ws.foldlM (fun s w => (memDemoWrite s w.1 w.2).map Prod.fst) s

/-! ## Values in the array -/

/-- The objects among the values of an array. -/
def objects (vals : List (Option Nat)) : Multiset Nat := (vals.filterMap id : List Nat)

@[simp] theorem objects_nil : objects [] = 0 := rfl

@[simp] theorem objects_cons_none (vals : List (Option Nat)) : objects (none :: vals) = objects vals := rfl

@[simp] theorem objects_cons_some (a : Nat) (vals : List (Option Nat)) :
    objects (some a :: vals) = a ::ₘ objects vals :=
  rfl

theorem objects_append (vals vals' : List (Option Nat)) : objects (vals ++ vals') = objects vals + objects vals' := by
  rw [objects, List.filterMap_append, ← Multiset.coe_add]
  rfl

/-- The object in a slot, and those in the others. -/
theorem objects_set_none {vals : List (Option Nat)} {i : Nat} {a : Nat} (h : vals[i]? = some (some a)) :
    objects vals = a ::ₘ objects (vals.set i none) := by
  obtain ⟨hi, hget⟩ := List.getElem?_eq_some_iff.mp h
  have hsplit : vals = vals.take i ++ some a :: vals.drop (i + 1) := by
    rw [← hget, List.getElem_cons_drop, List.take_append_drop]
  have hset : vals.set i none = vals.take i ++ none :: vals.drop (i + 1) := by
    rw [List.set_eq_take_append_cons_drop, if_pos hi]
  rw [hset, objects_append, objects_cons_none]
  conv_lhs => rw [hsplit]
  rw [objects_append, objects_cons_some, Multiset.add_cons]

/-- The values in the assigned slots, the live objects, and that nothing that was freed before `h` was forgotten. -/
structure Holds (h : Heap) (vals : List (Option Nat)) (rest : Nat) (m : Multiset Nat) (s : Locals) : Prop where
  ptrs : s.ptrs = vals.map some ++ List.replicate rest none
  owns : s.heap.Owns m
  freed : h.freed <+: s.heap.freed

section Loops

variable {h : Heap} {vals : List (Option Nat)} {rest : Nat} {m : Multiset Nat} {s : Locals}

theorem enter_holds (h : Heap) {heap : Heap} (hm : heap.Owns m) (hfreed : h.freed <+: heap.freed) (n : Nat) :
    Holds h [] n m (.enter n heap) := ⟨rfl, hm, hfreed⟩

theorem Holds.read (hs : Holds h vals rest m s) {i : Nat} {p : Option Nat} (hi : vals[i]? = some p) :
    s.read i = some p := by
  have hlt := (List.getElem?_eq_some_iff.mp hi).1
  rw [Locals.read, hs.ptrs, List.getElem?_append_left (by rw [List.length_map]; exact hlt), List.getElem?_map, hi]
  rfl

/-! ## Loops that allocate -/

/-- The next slot is assigned. -/
theorem set_next (vals : List (Option Nat)) (rest : Nat) (p : Option Nat) :
    (vals.map some ++ List.replicate (rest + 1) none).set vals.length (some p) =
      (vals ++ [p]).map some ++ List.replicate rest none := by
  have hlen : (vals.map some).length = vals.length := List.length_map some
  rw [← hlen, List.set_append_right _ _ (Nat.le_refl _), Nat.sub_self, List.replicate_succ, List.set_cons_zero,
    List.map_append, List.append_assoc]
  rfl

/-- An allocation that succeeded gives a new object, which can be used. -/
theorem Holds.allocated (hs : Holds h vals (rest + 1) (objects vals + m) s) (failures : Int32) :
    Holds h (vals ++ [some s.heap.allocated]) rest (objects (vals ++ [some s.heap.allocated]) + m)
      ⟨s.ptrs.set vals.length (some (some s.heap.allocated)), s.heap.grow, failures⟩ := by
  have howns : objects (vals ++ [some s.heap.allocated]) + m = s.heap.allocated ::ₘ (objects vals + m) := by
    rw [objects_append, objects_cons_some, objects_nil, Multiset.add_cons, add_zero, Multiset.cons_add]
  refine ⟨?_, howns ▸ hs.owns.alloc, hs.freed⟩
  rw [hs.ptrs]
  exact set_next vals rest _

/-- One that failed gives `NULL`. -/
theorem Holds.refused (hs : Holds h vals (rest + 1) (objects vals + m) s) (failures : Int32) :
    Holds h (vals ++ [none]) rest (objects (vals ++ [none]) + m)
      ⟨s.ptrs.set vals.length (some none), s.heap, failures⟩ := by
  have howns : objects (vals ++ [none]) + m = objects vals + m := by
    rw [objects_append, objects_cons_none, objects_nil, add_zero]
  refine ⟨?_, howns ▸ hs.owns, hs.freed⟩
  rw [hs.ptrs]
  exact set_next vals rest _

/-- **One allocation.** -/
theorem allocSlot_spec (fill : Bool) (ok : Nat → Bool) (hs : Holds h vals (rest + 1) (objects vals + m) s) :
    ∃ s' p, allocSlot fill ok s vals.length = some s' ∧ Holds h (vals ++ [p]) rest (objects (vals ++ [p]) + m) s' ∧
      s'.heap.allocated = s.heap.allocated + (ok vals.length).toNat ∧
      s'.failures = s.failures + Int32.ofNat (!ok vals.length).toNat := by
  cases hok : ok vals.length with
  | true =>
    have hnew := hs.allocated s.failures
    have hfill : (if fill then s.heap.grow.accessAll [s.heap.allocated] else some ()) = some () := by
      cases fill with
      | false => rfl
      | true =>
        refine hnew.owns.accessAll fun a ha => ?_
        rw [List.mem_singleton.mp ha, objects_append]
        simp
    refine ⟨_, _, ?_, hnew, rfl, (Int32.add_zero s.failures).symm⟩
    simp only [allocSlot, Heap.alloc, hok, ↓reduceIte, Option.toList_some, hfill]
    rfl
  | false =>
    have hfill : (if fill then s.heap.accessAll [] else some ()) = some () := by
      cases fill <;> rfl
    refine ⟨_, _, ?_, hs.refused (s.failures + 1), rfl, rfl⟩
    simp only [allocSlot, Heap.alloc, hok, Bool.false_eq_true, ↓reduceIte, Option.toList_none, hfill]
    rfl

theorem countP_range_succ (q : Nat → Bool) (i : Nat) :
    (List.range (i + 1)).countP q = (List.range i).countP q + (q i).toNat := by
  rw [List.range_succ, List.countP_append, List.countP_singleton]
  cases q i <;> rfl

/-- **The allocating loop.** -/
theorem allocSlots_spec (fill : Bool) (ok : Nat → Bool) (n : Nat) {heap : Heap} (hm : heap.Owns m)
    (hfreed : h.freed <+: heap.freed) : ∃ s vals, vals.length = n ∧
      (List.range n).foldlM (allocSlot fill ok) (.enter n heap) = some s ∧ Holds h vals 0 (objects vals + m) s ∧
      s.heap.allocated = heap.allocated + (List.range n).countP ok ∧
      s.failures = Int32.ofNat ((List.range n).countP fun i => !ok i) := by
  let I := fun (i : Nat) (s : Locals) => ∃ vals, vals.length = i ∧ Holds h vals (n - i) (objects vals + m) s ∧
    s.heap.allocated = heap.allocated + (List.range i).countP ok ∧
    s.failures = Int32.ofNat ((List.range i).countP fun i => !ok i)
  have hinit : I 0 (.enter n heap) := ⟨[], rfl, by simpa using enter_holds h hm hfreed n, rfl, rfl⟩
  have hbody : ∀ i < n, ∀ s, I i s → ∃ s', allocSlot fill ok s i = some s' ∧ I (i + 1) s' := by
    rintro i hi s ⟨vals, rfl, hholds, halloc, hfail⟩
    rw [show n - vals.length = n - (vals.length + 1) + 1 by omega] at hholds
    obtain ⟨s', p, hs', hholds', halloc', hfail'⟩ := allocSlot_spec fill ok hholds
    refine ⟨s', hs', vals ++ [p], by simp, hholds', ?_, ?_⟩
    · rw [halloc', halloc, countP_range_succ, Nat.add_assoc]
    · rw [hfail', hfail, countP_range_succ, Int32.ofNat_add]
  obtain ⟨s, hs, vals, hlen, hholds, halloc, hfail⟩ := foldlM_range hbody hinit
  rw [Nat.sub_self] at hholds
  exact ⟨s, vals, hlen, hs, hholds, halloc, hfail⟩

/-! ## Loops that free -/

/-- What is in a slot is freed once. -/
theorem free_object (hs : Holds h vals rest (a ::ₘ m) s) : ∃ heap, s.heap.free a = some heap ∧ heap.Owns m ∧
    h.freed <+: heap.freed ∧ heap.allocated = s.heap.allocated := by
  obtain ⟨heap, hfree, howns, hfreed, halloc⟩ := hs.owns.free
  exact ⟨heap, hfree, howns, hfreed ▸ hs.freed.trans (List.prefix_append _ _), halloc⟩

/-- **One slot freed.** -/
theorem freeSlot_spec {i : Nat} (hi : i < vals.length) (hs : Holds h vals rest (objects (vals.drop i) + m) s) :
    ∃ s', freeSlot s i = some s' ∧ Holds h vals rest (objects (vals.drop (i + 1)) + m) s' ∧
      s'.heap.allocated = s.heap.allocated ∧ s'.failures = s.failures := by
  have hread := hs.read (List.getElem?_eq_getElem hi)
  rw [List.drop_eq_getElem_cons hi] at hs
  cases hp : vals[i] with
  | none =>
    rw [hp] at hread hs
    exact ⟨s, by rw [freeSlot, hread]; rfl, hs, rfl, rfl⟩
  | some a =>
    rw [hp] at hread hs
    rw [objects_cons_some, Multiset.cons_add] at hs
    obtain ⟨heap, hfree, howns, hfreed, halloc⟩ := free_object hs
    refine ⟨{ s with heap := heap }, ?_, ⟨hs.ptrs, howns, hfreed⟩, halloc, rfl⟩
    simp only [freeSlot, hread, Option.bind_some, hfree, Option.map_some]

/-- **The freeing loop**, over the first `k` slots. -/
theorem freeSlots_spec {k : Nat} (hk : k ≤ vals.length) (hs : Holds h vals rest (objects vals + m) s) :
    ∃ s', (List.range k).foldlM freeSlot s = some s' ∧ Holds h vals rest (objects (vals.drop k) + m) s' ∧
      s'.heap.allocated = s.heap.allocated ∧ s'.failures = s.failures := by
  refine foldlM_range (I := fun i s' => Holds h vals rest (objects (vals.drop i) + m) s' ∧
    s'.heap.allocated = s.heap.allocated ∧ s'.failures = s.failures) ?_ ⟨hs, rfl, rfl⟩
  rintro i hi s₁ ⟨hs₁, halloc, hfail⟩
  obtain ⟨s', hs', hholds, halloc', hfail'⟩ := freeSlot_spec (by omega) hs₁
  exact ⟨s', hs', hholds, halloc'.trans halloc, hfail'.trans hfail⟩

/-- All slots freed. -/
theorem freeAll_spec {n : Nat} (hn : vals.length = n) (hs : Holds h vals rest (objects vals + m) s) :
    ∃ s', (List.range n).foldlM freeSlot s = some s' ∧ Holds h vals rest m s' ∧
      s'.heap.allocated = s.heap.allocated ∧ s'.failures = s.failures := by
  obtain ⟨s', hs', hholds, halloc, hfail⟩ := freeSlots_spec (Nat.le_of_eq hn.symm) hs
  rw [← hn, List.drop_length, objects_nil, zero_add] at hholds
  exact ⟨s', hs', hholds, halloc, hfail⟩

/-- **One hole.** -/
theorem freeHole_spec {i : Nat} (hi : i < vals.length) (hs : Holds h vals rest (objects vals + m) s) :
    ∃ s' vals', freeHole s i = some s' ∧ vals'.length = vals.length ∧ Holds h vals' rest (objects vals' + m) s' ∧
      s'.heap.allocated = s.heap.allocated := by
  have hget := List.getElem?_eq_getElem hi
  have hread := hs.read hget
  cases hp : vals[i] with
  | none =>
    rw [hp] at hread
    exact ⟨s, vals, by rw [freeHole, hread]; rfl, rfl, hs, rfl⟩
  | some a =>
    rw [hp] at hread hget
    have hone := objects_set_none hget
    rw [hone, Multiset.cons_add] at hs
    obtain ⟨heap, hfree, howns, hfreed, halloc⟩ := free_object hs
    refine ⟨{ s with heap := heap, ptrs := s.ptrs.set i (some none) }, vals.set i none, ?_, List.length_set,
      ⟨?_, howns, hfreed⟩, halloc⟩
    · simp only [freeHole, hread, Option.bind_some, hfree, Option.map_some]
    · rw [hs.ptrs, List.set_append_left _ _ (by rw [List.length_map]; exact hi), List.map_set]

/-- **The loop that makes holes**, over every other slot. -/
theorem freeHoles_spec {k : Nat} (hk : 2 * k ≤ vals.length) (hs : Holds h vals rest (objects vals + m) s) :
    ∃ s' vals', ((List.range k).map (2 * ·)).foldlM freeHole s = some s' ∧ vals'.length = vals.length ∧
      Holds h vals' rest (objects vals' + m) s' ∧ s'.heap.allocated = s.heap.allocated := by
  let I := fun (_ : Nat) (s' : Locals) => ∃ vals', vals'.length = vals.length ∧
    Holds h vals' rest (objects vals' + m) s' ∧ s'.heap.allocated = s.heap.allocated
  have hinit : I 0 s := ⟨vals, rfl, hs, rfl⟩
  have hbody : ∀ i < k, ∀ s, I i s → ∃ s', freeHole s (2 * i) = some s' ∧ I (i + 1) s' := by
    rintro i hi s₁ ⟨vals₁, hlen, hholds, halloc⟩
    obtain ⟨s', vals', hs', hlen', hholds', halloc'⟩ := freeHole_spec (i := 2 * i) (by omega) hholds
    exact ⟨s', hs', vals', hlen'.trans hlen, hholds', halloc'.trans halloc⟩
  obtain ⟨s', hs', vals', hlen, hholds, halloc⟩ := foldlM_range hbody hinit
  rw [List.foldlM_map]
  exact ⟨s', vals', hs', hlen, hholds, halloc⟩

/-- **The loop that stops at the first failure**: all slots before it hold objects, the slot of the failure holds
`NULL`. -/
theorem allocUntil_spec (ok : Nat → Bool) (n : Nat) {vals : List (Option Nat)} {s : Locals}
    (hs : Holds h vals n (objects vals + m) s) : ∃ got extra rest s', objects extra = 0 ∧
      allocUntil ok n vals.length vals.length s = (got.length, s') ∧
      Holds h (got ++ extra) rest (objects (got ++ extra) + m) s' ∧
      got.length = vals.length + ((List.range' vals.length n).takeWhile ok).length ∧
      s'.heap.allocated + vals.length = s.heap.allocated + got.length := by
  induction n generalizing vals s with
  | zero =>
    exact ⟨vals, [], 0, s, rfl, rfl, by rwa [List.append_nil], by simp, rfl⟩
  | succ n ih =>
    rw [List.range'_succ, List.takeWhile_cons]
    cases hok : ok vals.length with
    | true =>
      have hlen : (vals ++ [some s.heap.allocated]).length = vals.length + 1 := by simp
      obtain ⟨got, extra, rest, s', hextra, hrun, hholds, hgot, halloc⟩ := ih (hs.allocated s.failures)
      rw [hlen] at hrun hgot halloc
      refine ⟨got, extra, rest, s', hextra, ?_, hholds, ?_, ?_⟩
      · simp only [allocUntil, Heap.alloc, hok, ↓reduceIte]
        exact hrun
      · simp only [↓reduceIte, List.length_cons]
        omega
      · have hgrow : s.heap.grow.allocated = s.heap.allocated + 1 := rfl
        simp only [hgrow] at halloc
        omega
    | false =>
      refine ⟨vals, [none], n, _, rfl, ?_, hs.refused s.failures, by simp, rfl⟩
      simp only [allocUntil, Heap.alloc, hok, Bool.false_eq_true, ↓reduceIte]

end Loops

/-! ## The tests -/

/-- A heap that owns the same as before, after `k` allocations. -/
theorem balanced_of_holds {h : Heap} {m : Multiset Nat} (hm : h.Owns m) {vals : List (Option Nat)} {rest k : Nat}
    {s : Locals} (hs : Holds h vals rest m s) (halloc : s.heap.allocated = h.allocated + k) : h.Balanced s.heap k := by
  obtain ⟨xs, hxs⟩ := hs.freed
  exact hm.balanced hs.owns hxs.symm halloc

/-- A performance test. -/
theorem performanceTest_spec (fill : Bool) (ok : Nat → Bool) (h : Heap) : ∃ failures h',
    performanceTest fill ok h = some (failures, h') ∧ h.Balanced h' ((List.range 1000).countP ok) ∧
      failures.toInt = (List.range 1000).countP fun i => !ok i := by
  obtain ⟨m, hm⟩ := h.exists_owns
  obtain ⟨s₁, vals, hlen, hs₁, hholds₁, halloc₁, hfail₁⟩ :=
    allocSlots_spec fill ok testIterations hm (List.prefix_refl h.freed)
  obtain ⟨s₂, hs₂, hholds₂, halloc₂, hfail₂⟩ := freeAll_spec hlen hholds₁
  refine ⟨s₂.failures, s₂.heap, ?_, balanced_of_holds hm hholds₂ (halloc₂.trans halloc₁), ?_⟩
  · rw [performanceTest, hs₁, Option.bind_eq_bind, Option.bind_some, hs₂, Option.bind_some]
  · rw [hfail₂, hfail₁]
    refine Int32.toInt_ofNat_of_lt (Nat.lt_of_le_of_lt List.countP_le_length ?_)
    rw [List.length_range, testIterations]
    decide

theorem testKmallocPerformance_spec (result : AllocTestResult) (t : Trial) (h : Heap) : ∃ r h',
    testKmallocPerformance result t h = some (r, h') ∧ h.Balanced h' ((List.range 1000).countP t.ok) ∧
      r.kmallocFailures.toInt = (List.range 1000).countP fun i => !t.ok i := by
  obtain ⟨failures, h', htest, hbalanced, hfailures⟩ := performanceTest_spec false t.ok h
  exact ⟨_, h', by rw [testKmallocPerformance, htest, Option.map_some], hbalanced, hfailures⟩

theorem testVmallocPerformance_spec (result : AllocTestResult) (t : Trial) (h : Heap) : ∃ r h',
    testVmallocPerformance result t h = some (r, h') ∧ h.Balanced h' ((List.range 1000).countP t.ok) ∧
      r.vmallocFailures.toInt = (List.range 1000).countP fun i => !t.ok i := by
  obtain ⟨failures, h', htest, hbalanced, hfailures⟩ := performanceTest_spec false t.ok h
  exact ⟨_, h', by rw [testVmallocPerformance, htest, Option.map_some], hbalanced, hfailures⟩

theorem testSlabPerformance_spec (result : AllocTestResult) (t : Trial) (h : Heap) : ∃ r h',
    testSlabPerformance result t h = some (r, h') ∧ h.Balanced h' ((List.range 1000).countP t.ok) ∧
      r.slabFailures.toInt = (List.range 1000).countP fun i => !t.ok i := by
  obtain ⟨failures, h', htest, hbalanced, hfailures⟩ := performanceTest_spec true t.ok h
  exact ⟨_, h', by rw [testSlabPerformance, htest, Option.map_some], hbalanced, hfailures⟩

theorem testMemoryFragmentation_spec (ok : Nat → Bool) (h : Heap) : ∃ h',
    testMemoryFragmentation ok h = some h' ∧ h.Balanced h' ((List.range 110).countP ok) := by
  obtain ⟨m, hm⟩ := h.exists_owns
  obtain ⟨l₁, large, hlen, hl₁, hlarge, halloc₁, -⟩ := allocSlots_spec false ok 10 hm (List.prefix_refl h.freed)
  obtain ⟨l₂, large', hl₂, hlen₂, hlarge', halloc₂⟩ := freeHoles_spec (k := 5) (by omega) hlarge
  -- the large chunks that are left belong to the rest while the small ones come and go
  obtain ⟨s₁, small, hlen₃, hs₁, hsmall, halloc₃, -⟩ :=
    allocSlots_spec false (fun i => ok (10 + i)) 100 hlarge'.owns hlarge'.freed
  have hboth : Holds h large' 0 (objects large' + (objects small + m)) { l₂ with heap := s₁.heap } :=
    ⟨hlarge'.ptrs, add_left_comm (objects small) _ _ ▸ hsmall.owns, hsmall.freed⟩
  obtain ⟨l₃, hl₃, hlarge₃, halloc₄, -⟩ := freeAll_spec (hlen₂.trans hlen) hboth
  have hrest : Holds h small 0 (objects small + m) { s₁ with heap := l₃.heap } :=
    ⟨hsmall.ptrs, hlarge₃.owns, hlarge₃.freed⟩
  obtain ⟨s₂, hs₂, hsmall₂, halloc₅, -⟩ := freeAll_spec hlen₃ hrest
  have hcount : (List.range 110).countP ok = (List.range 10).countP ok + (List.range 100).countP fun i =>
      ok (10 + i) := by
    rw [show 110 = 10 + 100 from rfl, List.range_add, List.countP_append, List.countP_map]
    rfl
  refine ⟨s₂.heap, ?_, balanced_of_holds hm hsmall₂ ?_⟩
  · simp only [testMemoryFragmentation, hl₁, hl₂, hs₁, hl₃, hs₂, Option.bind_eq_bind, Option.bind_some]
  · rw [hcount, halloc₅, halloc₄, halloc₃, halloc₂, halloc₁, Nat.add_assoc]

theorem testAllocationFailures_spec (ok : Nat → Bool) (h : Heap) : ∃ h',
    testAllocationFailures ok h = some (((List.range 1000).takeWhile ok).length, h') ∧
      h.Balanced h' ((List.range 1000).takeWhile ok).length := by
  obtain ⟨m, hm⟩ := h.exists_owns
  have henter : Holds h [] 1000 (objects [] + m) (.enter 1000 h) := by
    rw [objects_nil, zero_add]
    exact enter_holds h hm (List.prefix_refl _) 1000
  obtain ⟨got, extra, rest, s₁, hextra, hrun, hholds, hgot, halloc⟩ := allocUntil_spec ok 1000 henter
  obtain ⟨s₂, hs₂, hholds₂, halloc₂, -⟩ := freeSlots_spec (k := got.length) (by simp) hholds
  rw [List.drop_left, hextra, zero_add] at hholds₂
  have hcount : got.length = ((List.range 1000).takeWhile ok).length := by
    rw [hgot, List.length_nil, zero_add, ← List.range_eq_range']
  refine ⟨s₂.heap, ?_, balanced_of_holds hm hholds₂ ?_⟩
  · rw [List.length_nil, hcount] at hrun
    rw [hcount] at hs₂
    simp only [testAllocationFailures, hrun, hs₂, Option.bind_eq_bind, Option.bind_some]
  · rw [← hcount, halloc₂]
    exact halloc

/-- **The tests balance.** For every outcome of the individual allocations and whatever is on the heap: no test faults
(no slot is read that was not assigned, nothing is used or freed that is not live); each frees exactly the objects it
has allocated, once each; and the performance tests record the number of allocations that failed. -/
theorem mem_allocator_balanced (h : Heap) (result : AllocTestResult) (t : Trial) :
    (∃ r h', testKmallocPerformance result t h = some (r, h') ∧ h.Balanced h' ((List.range 1000).countP t.ok) ∧
      r.kmallocFailures.toInt = (List.range 1000).countP fun i => !t.ok i) ∧
    (∃ r h', testVmallocPerformance result t h = some (r, h') ∧ h.Balanced h' ((List.range 1000).countP t.ok) ∧
      r.vmallocFailures.toInt = (List.range 1000).countP fun i => !t.ok i) ∧
    (∃ r h', testSlabPerformance result t h = some (r, h') ∧ h.Balanced h' ((List.range 1000).countP t.ok) ∧
      r.slabFailures.toInt = (List.range 1000).countP fun i => !t.ok i) ∧
    (∃ h', testMemoryFragmentation t.ok h = some h' ∧ h.Balanced h' ((List.range 110).countP t.ok)) ∧
    (∃ h', testAllocationFailures t.ok h = some (((List.range 1000).takeWhile t.ok).length, h') ∧
      h.Balanced h' ((List.range 1000).takeWhile t.ok).length) :=
  ⟨testKmallocPerformance_spec result t h, testVmallocPerformance_spec result t h, testSlabPerformance_spec result t h,
    testMemoryFragmentation_spec t.ok h, testAllocationFailures_spec t.ok h⟩

/-! ## Commands -/

/-- In each heap exactly the new objects were freed. -/
def Settles (s s' : MemAllocatorDemo) : Prop :=
  (∃ k, s.kmallocHeap.Balanced s'.kmallocHeap k) ∧ (∃ k, s.vmallocHeap.Balanced s'.vmallocHeap k) ∧
    ∃ k, s.demoCache.Balanced s'.demoCache k

theorem Settles.refl (s : MemAllocatorDemo) : Settles s s := ⟨⟨0, .refl _⟩, ⟨0, .refl _⟩, ⟨0, .refl _⟩⟩

theorem Settles.trans {s s₁ s₂ : MemAllocatorDemo} (h : Settles s s₁) (h' : Settles s₁ s₂) : Settles s s₂ := by
  obtain ⟨⟨k₁, h₁⟩, ⟨k₂, h₂⟩, ⟨k₃, h₃⟩⟩ := h
  obtain ⟨⟨l₁, h₁'⟩, ⟨l₂, h₂'⟩, ⟨l₃, h₃'⟩⟩ := h'
  exact ⟨⟨_, h₁.trans h₁'⟩, ⟨_, h₂.trans h₂'⟩, ⟨_, h₃.trans h₃'⟩⟩

theorem runPerformanceTests_settles (s : MemAllocatorDemo) (t : Fin 7 → Trial) :
    ∃ s', runPerformanceTests s t = some s' ∧ Settles s s' := by
  have hkmalloc : ∀ result t h, ∃ p, testKmallocPerformance result t h = some p ∧ ∃ k, h.Balanced p.2 k := by
    intro result t h
    obtain ⟨r, h', hrun, hbalanced, -⟩ := testKmallocPerformance_spec result t h
    exact ⟨(r, h'), hrun, _, hbalanced⟩
  have hvmalloc : ∀ result t h, ∃ p, testVmallocPerformance result t h = some p ∧ ∃ k, h.Balanced p.2 k := by
    intro result t h
    obtain ⟨r, h', hrun, hbalanced, -⟩ := testVmallocPerformance_spec result t h
    exact ⟨(r, h'), hrun, _, hbalanced⟩
  have hslab : ∀ result t h, ∃ p, testSlabPerformance result t h = some p ∧ ∃ k, h.Balanced p.2 k := by
    intro result t h
    obtain ⟨r, h', hrun, hbalanced, -⟩ := testSlabPerformance_spec result t h
    exact ⟨(r, h'), hrun, _, hbalanced⟩
  -- the three sizes, the first with all three allocators
  refine bind_invariant (hkmalloc _ _ _) ?_
  rintro ⟨_, k₁⟩ ⟨_, b₁⟩
  refine bind_invariant (hvmalloc _ _ _) ?_
  rintro ⟨_, v₁⟩ ⟨_, c₁⟩
  refine bind_invariant (hslab _ _ _) ?_
  rintro ⟨_, d₁⟩ ⟨_, e₁⟩
  refine bind_invariant (hkmalloc _ _ _) ?_
  rintro ⟨_, k₂⟩ ⟨_, b₂⟩
  refine bind_invariant (hvmalloc _ _ _) ?_
  rintro ⟨_, v₂⟩ ⟨_, c₂⟩
  refine bind_invariant (hkmalloc _ _ _) ?_
  rintro ⟨_, k₃⟩ ⟨_, b₃⟩
  refine bind_invariant (hvmalloc _ _ _) ?_
  rintro ⟨_, v₃⟩ ⟨_, c₃⟩
  exact ⟨_, rfl, ⟨_, (b₁.trans b₂).trans b₃⟩, ⟨_, (c₁.trans c₂).trans c₃⟩, ⟨_, e₁⟩⟩

/-- **One command.** -/
theorem memDemoWrite_settles (s : MemAllocatorDemo) (w : UserText) (t : Fin 7 → Trial) :
    ∃ s' ret, memDemoWrite s w t = some (s', ret) ∧ Settles s s' := by
  simp only [memDemoWrite]
  split
  · exact ⟨s, _, rfl, .refl s⟩
  split
  · exact ⟨s, _, rfl, .refl s⟩
  split
  · obtain ⟨s', hs', hsettles⟩ := runPerformanceTests_settles s t
    exact ⟨s', _, by rw [hs', Option.map_some], hsettles⟩
  split
  · obtain ⟨heap, htest, hbalanced⟩ := testMemoryFragmentation_spec (t 0).ok s.kmallocHeap
    rw [htest, Option.map_some]
    exact ⟨_, _, rfl, ⟨_, hbalanced⟩, ⟨0, .refl _⟩, ⟨0, .refl _⟩⟩
  split
  · obtain ⟨heap, htest, hbalanced⟩ := testAllocationFailures_spec (t 0).ok s.kmallocHeap
    rw [htest, Option.map_some]
    exact ⟨_, _, rfl, ⟨_, hbalanced⟩, ⟨0, .refl _⟩, ⟨0, .refl _⟩⟩
  · exact ⟨s, _, rfl, .refl s⟩

/-- **Any commands** leave the objects that were live before. -/
theorem memDemoWrites_settles (ws : List (UserText × (Fin 7 → Trial))) (s : MemAllocatorDemo) :
    ∃ s', memDemoWrites s ws = some s' ∧ Settles s s' := by
  refine foldlM_invariant (I := fun _ s' => Settles s s') ?_ ws s (.refl s)
  intro w _ s₁ hs₁
  obtain ⟨s', ret, hwrite, hsettles⟩ := memDemoWrite_settles s₁ w.1 w.2
  exact ⟨s', by rw [hwrite, Option.map_some], hs₁.trans hsettles⟩

end KernelModules.Alloc
