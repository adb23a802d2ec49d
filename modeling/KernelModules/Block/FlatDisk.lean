import Mathlib.Data.List.Forall2
import KernelModules.Block.Transfer

/-!
# The RAM block device is a byte array

Completed bios are read as accesses of single bytes of the device: byte `i` of the concatenated buffers of a bio lies
at offset `biSector * 512 + i` (`Bio.accesses`). For requests inside the capacity whose segments are whole sectors, the
driver serves these accesses from its storage:

- one transfer inside the device copies exactly its range (`simpleTransfer_inside`);
- the segment loop, the bio and the request loop serve their accesses (`bioForEachSegment_serves`,
  `simpleHandleBio_serves`, `simpleQueueRq_serves`), and so does a sequence of requests (`serve_serves`);
- hence the device is a flat byte array over whole histories (`simple_block_flat_disk`).
-/

namespace KernelModules.Block

open Lib

/-- The capacity set by `set_capacity`, in sectors. -/
def capacity : Nat := simpleBlockSize / kernelSectorSize

/-- The bytes of a segment. -/
def BioVec.bytes (bv : BioVec) : List UInt8 := slice bv.buffer 0 bv.bvLen.toNat

/-- The bytes of consecutive segments. -/
def segBytes (segs : List BioVec) : List UInt8 := segs.flatMap BioVec.bytes

/-- The length of consecutive segments in bytes. -/
def segLen : List BioVec → Nat
  | [] => 0
  | bv :: segs => bv.bvLen.toNat + segLen segs

/-- A read loads bytes of the device, a write stores them. -/
def Dir.accesses : Dir → Nat → List UInt8 → List (Access Nat UInt8)
  | .read => loads
  | .write => stores

/-- The device bytes that a completed bio has delivered or stored, at their offsets. -/
def Bio.accesses (b : Bio) : List (Access Nat UInt8) :=
  b.dir.accesses (b.biSector.toNat * kernelSectorSize) (segBytes b.segs)

/-- The accesses of completed requests, in the order of their bios. -/
def accesses (reqs : List Request) : List (Access Nat UInt8) := reqs.flatMap fun req => req.flatMap Bio.accesses

/-- Whole sectors, inside the capacity. -/
def Bio.Admissible (b : Bio) : Prop :=
  (∀ bv ∈ b.segs, kernelSectorSize ∣ bv.bvLen.toNat) ∧
    b.biSector.toNat + segLen b.segs / kernelSectorSize ≤ capacity

instance (b : Bio) : Decidable b.Admissible := inferInstanceAs (Decidable (_ ∧ _))

/-- A completed bio is the bio as submitted, with other buffer contents if it is a read. -/
def Bio.Completes (b b' : Bio) : Prop :=
  b'.biSector = b.biSector ∧ b'.dir = b.dir ∧ b'.segs.map BioVec.bvLen = b.segs.map BioVec.bvLen ∧
    (b.dir = .write → b' = b)

/-! ## One transfer -/

/-- **A transfer inside the device** copies its range: nothing wraps, nothing is refused. -/
theorem simpleTransfer_inside {dev : SimpleBlockDev} (hdev : dev.size = Int32.ofNat simpleBlockSize)
    {sector nsect : UInt64} (h : sector.toNat * kernelSectorSize + nsect.toNat * kernelSectorSize ≤ simpleBlockSize)
    (buffer : Nat → UInt8) (dir : Dir) :
    simpleTransfer dev sector nsect buffer dir = match dir with
      | .write =>
        ({ dev with
            data := memcpy dev.data (sector.toNat * kernelSectorSize) buffer 0 (nsect.toNat * kernelSectorSize) },
          buffer)
      | .read =>
        (dev, memcpy buffer 0 dev.data (sector.toNat * kernelSectorSize) (nsect.toNat * kernelSectorSize)) := by
  have hpos : 0 ≤ dev.size.toInt := by
    rw [hdev]
    decide
  have hbytes : dev.bytes = simpleBlockSize := by
    rw [SimpleBlockDev.bytes, hdev]
    rfl
  have hlt : sector.toNat * kernelSectorSize + nsect.toNat * kernelSectorSize < 2 ^ 64 := lt_of_le_of_lt h (by decide)
  rw [simpleTransfer_eq, transferRange_of_lt hpos hlt, hbytes, if_pos h]
  cases dir with
  | read => rfl
  | write => rfl

/-- A segment of whole sectors is as long as its sectors. -/
theorem BioVec.nsect_mul {bv : BioVec} (h : kernelSectorSize ∣ bv.bvLen.toNat) :
    bv.nsect.toNat * kernelSectorSize = bv.bvLen.toNat := by
  have hs : (UInt32.ofNat kernelSectorSize).toNat = kernelSectorSize := rfl
  rw [BioVec.nsect, UInt32.toNat_toUInt64, UInt32.toNat_div, hs]
  exact Nat.div_mul_cancel h

/-- The running sector does not wrap inside the device. -/
theorem sector_add (sector : UInt64) {nsect : UInt64} {n : Nat} (hn : nsect.toNat * kernelSectorSize = n)
    (h : sector.toNat * kernelSectorSize + n ≤ simpleBlockSize) :
    (sector + nsect).toNat * kernelSectorSize = sector.toNat * kernelSectorSize + n := by
  have hlt : sector.toNat + nsect.toNat < 2 ^ 64 := by
    simp only [kernelSectorSize, simpleBlockSize] at hn h
    omega
  rw [UInt64.toNat_add, Nat.mod_eq_of_lt hlt, Nat.add_mul, hn]

/-! ## Segments, bios, requests -/

theorem Dir.accesses_append (d : Dir) (o : Nat) (bs bs' : List UInt8) :
    d.accesses o (bs ++ bs') = d.accesses o bs ++ d.accesses (o + bs.length) bs' := by
  cases d
  · exact loads_append o bs bs'
  · exact stores_append o bs bs'

/-- One segment of whole sectors inside the device serves its bytes. -/
theorem simpleTransfer_serves {dev : SimpleBlockDev} (hdev : dev.size = Int32.ofNat simpleBlockSize)
    (sector : UInt64) {bv : BioVec} (hbv : kernelSectorSize ∣ bv.bvLen.toNat)
    (h : sector.toNat * kernelSectorSize + bv.bvLen.toNat ≤ simpleBlockSize) (dir : Dir) :
    Serves dev.data (dir.accesses (sector.toNat * kernelSectorSize)
        (slice (simpleTransfer dev sector bv.nsect bv.buffer dir).2 0 bv.bvLen.toNat))
      (simpleTransfer dev sector bv.nsect bv.buffer dir).1.data ∧
    (simpleTransfer dev sector bv.nsect bv.buffer dir).1.size = dev.size ∧
    (dir = .write → (simpleTransfer dev sector bv.nsect bv.buffer dir).2 = bv.buffer) := by
  have hlen := BioVec.nsect_mul hbv
  rw [simpleTransfer_inside hdev (by rw [hlen]; exact h), hlen]
  cases dir with
  | read =>
    refine ⟨?_, rfl, fun h => by cases h⟩
    rw [slice_memcpy]
    exact serves_loads dev.data _ _
  | write => exact ⟨serves_stores bv.buffer dev.data _ 0 _, rfl, fun _ => rfl⟩

/-- **The segment loop** serves its bytes from the running sector on. -/
theorem bioForEachSegment_serves (dir : Dir) {dev : SimpleBlockDev} {sector : UInt64} {segs : List BioVec}
    (hdev : dev.size = Int32.ofNat simpleBlockSize) (hdvd : ∀ bv ∈ segs, kernelSectorSize ∣ bv.bvLen.toNat)
    (hin : sector.toNat * kernelSectorSize + segLen segs ≤ simpleBlockSize) :
    Serves dev.data (dir.accesses (sector.toNat * kernelSectorSize)
        (segBytes (bioForEachSegment dev sector dir segs).2))
        (bioForEachSegment dev sector dir segs).1.data ∧
      (bioForEachSegment dev sector dir segs).1.size = dev.size ∧
      (bioForEachSegment dev sector dir segs).2.map BioVec.bvLen = segs.map BioVec.bvLen ∧
      (dir = .write → (bioForEachSegment dev sector dir segs).2 = segs) := by
  induction segs generalizing dev sector with
  | nil => cases dir <;> exact ⟨.nil dev.data, rfl, rfl, fun _ => rfl⟩
  | cons bv segs ih =>
    have hbv := hdvd bv List.mem_cons_self
    rw [segLen] at hin
    obtain ⟨hserve, hsize, hkeep⟩ := simpleTransfer_serves hdev sector hbv (Nat.le_trans (by omega) hin) dir
    have hnext := sector_add sector (BioVec.nsect_mul hbv) (Nat.le_trans (by omega) hin)
    obtain ⟨ihserve, ihsize, ihmap, ihkeep⟩ := @ih _ (sector + bv.nsect) (hsize.trans hdev)
      (fun v hv => hdvd v (List.mem_cons_of_mem _ hv)) (by rw [hnext]; omega)
    rw [bioForEachSegment_cons]
    refine ⟨?_, ihsize.trans hsize, by simp [ihmap], fun hd => ?_⟩
    · rw [segBytes, List.flatMap_cons, Dir.accesses_append, BioVec.bytes, length_slice, ← hnext]
      exact hserve.trans ihserve
    · rw [ihkeep hd, hkeep hd]

/-- Segments of whole sectors are whole sectors together. -/
theorem dvd_segLen : ∀ {segs : List BioVec}, (∀ bv ∈ segs, kernelSectorSize ∣ bv.bvLen.toNat) →
    kernelSectorSize ∣ segLen segs
  | [], _ => Nat.dvd_zero _
  | bv :: _, h => Nat.dvd_add (h bv List.mem_cons_self) (dvd_segLen fun v hv => h v (List.mem_cons_of_mem _ hv))

/-- A bio inside the capacity lies inside the device. -/
theorem Bio.Admissible.inside {b : Bio} (h : b.Admissible) :
    b.biSector.toNat * kernelSectorSize + segLen b.segs ≤ simpleBlockSize := by
  obtain ⟨hdvd, hcap⟩ := h
  have hlen := dvd_segLen hdvd
  simp only [kernelSectorSize, capacity, simpleBlockSize] at hlen hcap ⊢
  omega

theorem simpleHandleBio_serves {dev : SimpleBlockDev} (hdev : dev.size = Int32.ofNat simpleBlockSize) {b : Bio}
    (hb : b.Admissible) :
    Serves dev.data (simpleHandleBio dev b).2.1.accesses (simpleHandleBio dev b).1.data ∧
      (simpleHandleBio dev b).1.size = dev.size ∧ b.Completes (simpleHandleBio dev b).2.1 := by
  obtain ⟨hserve, hsize, hmap, hkeep⟩ := bioForEachSegment_serves b.dir hdev hb.1 hb.inside
  refine ⟨hserve, hsize, rfl, rfl, hmap, fun hd => ?_⟩
  simp only [simpleHandleBio, hkeep hd]

theorem simpleQueueRq_serves : ∀ {dev : SimpleBlockDev} {req : Request}, dev.size = Int32.ofNat simpleBlockSize →
    (∀ b ∈ req, b.Admissible) →
    Serves dev.data ((simpleQueueRq dev req).2.1.flatMap Bio.accesses) (simpleQueueRq dev req).1.data ∧
      (simpleQueueRq dev req).1.size = dev.size ∧ List.Forall₂ Bio.Completes req (simpleQueueRq dev req).2.1
  | dev, [], _, _ => ⟨.nil dev.data, rfl, .nil⟩
  | dev, b :: req, hdev, hreq => by
    obtain ⟨hserve, hsize, hdone⟩ := simpleHandleBio_serves hdev (hreq b List.mem_cons_self)
    obtain ⟨ihserve, ihsize, ihdone⟩ := @simpleQueueRq_serves _ req (hsize.trans hdev)
      (fun b' hb' => hreq b' (List.mem_cons_of_mem _ hb'))
    rw [simpleQueueRq_cons]
    exact ⟨hserve.trans ihserve, ihsize.trans hsize, .cons hdone ihdone⟩

/-- **Sequences of requests** serve their accesses. -/
theorem serve_serves : ∀ {dev : SimpleBlockDev} {reqs : List Request}, dev.size = Int32.ofNat simpleBlockSize →
    (∀ req ∈ reqs, ∀ b ∈ req, b.Admissible) →
    Serves dev.data (accesses (serve dev reqs).2) (serve dev reqs).1.data ∧
      (serve dev reqs).1.size = dev.size ∧ List.Forall₂ (List.Forall₂ Bio.Completes) reqs (serve dev reqs).2
  | dev, [], _, _ => ⟨.nil dev.data, rfl, .nil⟩
  | dev, req :: reqs, hdev, hreqs => by
    obtain ⟨hserve, hsize, hdone⟩ := simpleQueueRq_serves hdev (hreqs req List.mem_cons_self)
    obtain ⟨ihserve, ihsize, ihdone⟩ := @serve_serves _ reqs (hsize.trans hdev)
      (fun r hr => hreqs r (List.mem_cons_of_mem _ hr))
    rw [serve_cons]
    exact ⟨hserve.trans ihserve, ihsize.trans hsize, .cons hdone ihdone⟩

/-! ## Where completed requests access the device -/

theorem length_segBytes : ∀ segs : List BioVec, (segBytes segs).length = segLen segs
  | [] => rfl
  | bv :: segs => by
    have ih := length_segBytes segs
    rw [segBytes] at ih
    rw [segBytes, List.flatMap_cons, List.length_append, ih, BioVec.bytes, length_slice, segLen]

theorem segLen_congr : ∀ {segs segs' : List BioVec}, segs'.map BioVec.bvLen = segs.map BioVec.bvLen →
    segLen segs' = segLen segs
  | [], [], _ => rfl
  | [], _ :: _, h => by cases h
  | _ :: _, [], h => by cases h
  | bv :: segs, bv' :: segs', h => by
    simp only [List.map_cons, List.cons.injEq] at h
    rw [segLen, segLen, h.1, segLen_congr h.2]

/-- A completed bio accesses the bytes of its sectors. -/
theorem Bio.Completes.place_lt {b b' : Bio} (h : b.Completes b') (hb : b.Admissible) {a : Access Nat UInt8}
    (ha : a ∈ b'.accesses) : a.place < simpleBlockSize := by
  obtain ⟨hsector, _, hmap, _⟩ := h
  have hin := hb.inside
  have hplace : a.place < b'.biSector.toNat * kernelSectorSize + (segBytes b'.segs).length := by
    rw [Bio.accesses] at ha
    cases hd : b'.dir with
    | read => rw [hd] at ha; exact (place_loads ha).2
    | write => rw [hd] at ha; exact (place_stores ha).2
  rw [length_segBytes, segLen_congr hmap, hsector] at hplace
  exact Nat.lt_of_lt_of_le hplace hin

/-- Completed requests access the device only below its size. -/
theorem accesses_lt {reqs reqs' : List Request} (h : List.Forall₂ (List.Forall₂ Bio.Completes) reqs reqs')
    (hreqs : ∀ req ∈ reqs, ∀ b ∈ req, b.Admissible) {a : Access Nat UInt8} (ha : a ∈ accesses reqs') :
    a.place < simpleBlockSize := by
  have hreq : ∀ {req req' : Request}, List.Forall₂ Bio.Completes req req' → (∀ b ∈ req, b.Admissible) →
      a ∈ req'.flatMap Bio.accesses → a.place < simpleBlockSize := by
    intro req req' h
    induction h with
    | nil => intro _ ha; cases ha
    | @cons b b' req req' hb _ ih =>
      intro hall ha
      rw [List.flatMap_cons, List.mem_append] at ha
      rcases ha with ha | ha
      · exact hb.place_lt (hall b List.mem_cons_self) ha
      · exact ih (fun c hc => hall c (List.mem_cons_of_mem _ hc)) ha
  induction h with
  | nil => cases ha
  | @cons req req' reqs reqs' hr _ ih =>
    rw [accesses, List.flatMap_cons, List.mem_append] at ha
    rcases ha with ha | ha
    · exact hreq hr (hreqs req List.mem_cons_self) ha
    · exact ih (fun c hc => hreqs c (List.mem_cons_of_mem _ hc)) ha

/-! ## The flat disk -/

/-- **The flat disk.** For every sequence of requests inside the capacity with segments of whole sectors: the requests
complete with their own bios; every byte delivered by a read is the byte last written at its offset, or `0xAA`; the
device ends with the bytes last written; and over every part of the sequence, a byte that no write covers keeps its
value. -/
theorem simple_block_flat_disk (mem : Nat → UInt8) (reqs : List Request)
    (h : ∀ req ∈ reqs, ∀ b ∈ req, b.Admissible) :
    List.Forall₂ (List.Forall₂ Bio.Completes) reqs (serve (simpleBlockInit mem) reqs).2 ∧
    (∀ pre o x post, accesses (serve (simpleBlockInit mem) reqs).2 = pre ++ .load o x :: post →
      o < simpleBlockSize ∧ x = (lastStored pre o).getD 0xAA) ∧
    (∀ o < simpleBlockSize, (serve (simpleBlockInit mem) reqs).1.data o =
      (lastStored (accesses (serve (simpleBlockInit mem) reqs).2) o).getD 0xAA) ∧
    (∀ first last, reqs = first ++ last → ∀ o,
      (∀ x, Access.store o x ∉ accesses (serve (serve (simpleBlockInit mem) first).1 last).2) →
      (serve (simpleBlockInit mem) reqs).1.data o = (serve (simpleBlockInit mem) first).1.data o) := by
  have hdev : (simpleBlockInit mem).size = Int32.ofNat simpleBlockSize := rfl
  have hinit : ∀ o < simpleBlockSize, (simpleBlockInit mem).data o = 0xAA := fun o ho => if_pos ho
  obtain ⟨hserve, _, hdone⟩ := serve_serves hdev h
  refine ⟨hdone, ?_, ?_, ?_⟩
  · intro pre o x post heq
    have ho : (Access.load o x).place < simpleBlockSize := accesses_lt hdone h (by rw [heq]; simp)
    rw [heq] at hserve
    exact ⟨ho, by rw [← hinit o ho]; exact hserve.load_eq⟩
  · intro o ho
    rw [hserve.final_eq, hinit o ho]
  · rintro first last rfl o ho
    obtain ⟨_, hsize, _⟩ := @serve_serves _ first hdev fun r hr => h r (List.mem_append_left _ hr)
    obtain ⟨hlast, _, _⟩ := @serve_serves _ last (hsize.trans hdev) fun r hr => h r (List.mem_append_right _ hr)
    rw [serve_append]
    exact hlast.frame ho

/-- Two segments written from sector 1 on, then read back in one piece by a second request. -/
def writeThenRead : List Request :=
  [[⟨1, .write, [⟨512, fun i => UInt8.ofNat i⟩, ⟨1024, fun _ => 7⟩]⟩], [⟨1, .read, [⟨1536, fun _ => 0⟩]⟩]]

theorem simple_block_flat_disk_writeThenRead :
    (∀ req ∈ writeThenRead, ∀ b ∈ req, b.Admissible) ∧
      (serve (simpleBlockInit fun _ => 0) writeThenRead).1.data 2000 =
        (lastStored (accesses (serve (simpleBlockInit fun _ => 0) writeThenRead).2) 2000).getD 0xAA :=
  ⟨by decide, (simple_block_flat_disk _ writeThenRead (by decide)).2.2.1 2000 (by decide)⟩

end KernelModules.Block
